import QuantEnclosure.Format.Config
import QuantEnclosure.Json.Schema
import QuantEnclosure.Json.Printer

/-!
Configurations as JSON.  A configuration is written as an object with a format for each role, a
format as an object with its strategy, its bit width and its scaling.
-/

namespace QuantEnclosure

open Json

def Strategy.variants : Variants Strategy :=
  [("positive", .positiveOnly), ("positive_only", .positiveOnly), ("symmetric", .symmetric)]

namespace Format

def schema : Schema Doc Format where
  expected := "struct QuantParams"
  initial := ⟨.symmetric, 0, 0⟩
  fields :=
    [ .required "strategy" (Doc.variant Strategy.variants) fun f s => { f with strategy := s },
      .required "bits" (Doc.integer 0 4294967295 "u32") fun f i =>
        { f with bits := UInt32.ofNat i.toNat },
      .required "scaling" (Doc.integer (-2147483648) 2147483647 "i32") fun f i =>
        { f with scaling := Int32.ofInt i } ]

def toJson (f : Format) : Value :=
  .object
    [ ("strategy", .string f.strategy.name),
      ("bits", .number (.int f.bits.toNat)),
      ("scaling", .number (.int f.scaling.toInt)) ]

end Format

namespace Config

def set (c : Config) (f : Format) : Role → Config
  | .input => { c with input := f }
  | .weights => { c with weights := f }
  | .biases => { c with biases := f }
  | .activations => { c with activations := f }

def schema : Schema Doc Config where
  expected := "struct QuantConfig"
  initial := standard
  fields := Role.all.map fun r => .required r.name Format.schema.read fun c f => c.set f r

/-- The configuration that a text describes, which must be valid. -/
def ofText (text : String) : Outcome Config :=
  match schema.readText text with
  | .error e => refuse (.invalidConfig ("quantization config: " ++ e.message))
  | .ok c => do
    c.validate
    .ok c

def toJson (c : Config) : Value := .object (Role.all.map fun r => (r.name, (c.get r).toJson))

def toText (c : Config) : String := c.toJson.toText

end Config

end QuantEnclosure
