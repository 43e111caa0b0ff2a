import QuantEnclosure.Propagation
import QuantEnclosure.Sampling
import QuantEnclosure.Json.Schema

/-!
Settings of the analysis and of the sampler as JSON.  A setting that is left out has its standard
value.
-/

namespace QuantEnclosure

open Json

def RegionMethod.variants : Variants RegionMethod :=
  [.vertexEnumeration, .perDimension, .auto].map fun m => (m.name, m)

namespace EngineConfig

/-- The schema of a source from which methods and natural numbers can be read. -/
def schema {δ : Type} (method : δ → Decoded RegionMethod) (natural : δ → Decoded Nat) :
    Schema δ EngineConfig where
  expected := "struct EngineConfig"
  initial := standard
  fields :=
    [ .optional "input_quantization" method fun c m => { c with method := m },
      .optional "max_vertex_dim" natural fun c n => { c with vertexLimit := n } ]

def ofText (text : String) : Decoded EngineConfig :=
  (schema (Doc.variant RegionMethod.variants) (Doc.natural "usize")).readText text

def ofValue (v : Value) : Decoded EngineConfig :=
  (schema (Value.variant RegionMethod.variants) (Value.natural "usize")).readValue v

end EngineConfig

namespace SamplerConfig

def schema : Schema Doc SamplerConfig where
  expected := "struct SamplerConfig"
  initial := standard
  fields :=
    [ .optional "num_samples" (Doc.natural "usize") fun c n => { c with samples := n },
      .optional "vertex_fraction" Doc.real fun c x => { c with vertexFraction := x },
      .optional "seed" (Doc.natural "u64") fun c n => { c with seed := UInt64.ofNat n },
      .optional "chunk_size" (Doc.natural "usize") fun c n => { c with chunkSize := n } ]

def ofText (text : String) : Decoded SamplerConfig := schema.readText text

end SamplerConfig

end QuantEnclosure
