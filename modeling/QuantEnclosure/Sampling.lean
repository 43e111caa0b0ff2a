import QuantEnclosure.Network.FixedPoint
import QuantEnclosure.Zonotope

/-!
The error of a network at sampled points of a region.  Noise vectors are drawn in chunks, the
errors of a chunk are bounded, and the bounds of the chunks are joined.  The result lies inside
every enclosure of the error and serves to check one.
-/

namespace QuantEnclosure

open Scalar

structure SamplerConfig where
  samples : Nat
  /-- The share of noise vectors that are corners of the noise cube. -/
  vertexFraction : Float
  seed : UInt64
  chunkSize : Nat

namespace SamplerConfig

def standard : SamplerConfig := ⟨10000, 0.3, 42, 1024⟩

/-- A share in a message has no exponent, and no point if it is whole. -/
def shareStyle : Decimal.Style := ⟨.up, none, false⟩

/-- Refuses a share outside `[0, 1]` and empty samples or chunks. -/
def validate (c : SamplerConfig) : Outcome Unit :=
  if ¬ (0.0 ≤ c.vertexFraction ∧ c.vertexFraction ≤ 1.0) then
    let share := (Decimal.Binary64.ofFloat c.vertexFraction).text shareStyle
    refuse (.invalidConfig s!"vertex fraction {share} is outside [0, 1]")
  else if c.samples = 0 ∨ c.chunkSize = 0 then
    refuse (.invalidConfig "sample count and chunk size must be positive")
  else .ok ()

end SamplerConfig

namespace Sampling

/-! ## Chunks -/

/-- The number of chunks: all full but the last. -/
def chunkCount (samples chunkSize : Nat) : Nat :=
  if samples % chunkSize = 0 then samples / chunkSize else samples / chunkSize + 1

def chunkStart (chunkSize chunk : Nat) : Nat := chunk * chunkSize

def chunkLength (samples chunkSize chunk : Nat) : Nat :=
  min chunkSize (samples - chunkStart chunkSize chunk)

variable {α : Type} [Scalar α]

/-! ## Bounds -/

/-- Bounds of errors seen so far, widened by one more. -/
def widen (bounds : Option (List (Bound α))) (error : List α) : List (Bound α) :=
  match bounds with
  | none => error.map Bound.point
  | some bs => List.zipWith Bound.insert bs error

/-- The bounds of the errors at the points of a list of noise vectors. -/
def chunkBounds (fixed : FixedPointNetwork α) (region : Zonotope α) :
    Option (List (Bound α)) → List (List α) → Outcome (Option (List (Bound α)))
  | bounds, [] => .ok bounds
  | bounds, noise :: rest => do
    let x ← region.pointAt noise
    let e ← fixed.error x
    chunkBounds fixed region (some (widen bounds e)) rest

def join (a b : List (Bound α)) : List (Bound α) := List.zipWith Bound.union a b

/-- Joins the bounds of all chunks that have some. -/
def joinAll (chunks : List (Option (List (Bound α)))) : Option (List (Bound α)) :=
  match chunks.filterMap id with
  | [] => none
  | b :: rest => some (rest.foldl join b)

/-- The bounds of the error at sampled points; `noise i` is the noise vector of sample `i`. -/
def errorBounds (cfg : SamplerConfig) (noise : Nat → List α) (n : Network α) (c : Config)
    (region : Zonotope α) : Outcome (List (Bound α)) := do
  let _ ← ensureDim "sampled region" n.inputDim region.dim
  let fixed ← n.fixedPoint c
  let chunks ← (List.range (chunkCount cfg.samples cfg.chunkSize)).mapM fun chunk =>
    let first := chunkStart cfg.chunkSize chunk
    let drawn := (List.range (chunkLength cfg.samples cfg.chunkSize chunk)).map fun i =>
      noise (first + i)
    chunkBounds fixed region none drawn
  match joinAll chunks with
  | some bounds => .ok bounds
  | none => refuse (.invalidConfig "no samples drawn")

/-- The corners of the noise cube in turn: entry `j` of corner `i` is the sign of bit `j`. -/
def cornerNoise (order : Nat) (i : Nat) : List α :=
  (List.range order).map fun j => if i.testBit j then 1 else -1

end Sampling

end QuantEnclosure
