import QuantEnclosure.Network.FixedPoint
import QuantEnclosure.Format.Region

/-!
The enclosure of the quantization error of a network over a region.  Two zonotopes are carried
through the layers in the integer domain: the real trajectory and the error, which is the
quantized trajectory minus the real one.  Column `j` of both belongs to the same noise symbol, so
their sum encloses the quantized trajectory.

* An affine layer maps `exact` by the real parameters, and `error` by the quantized parameters
  plus the parameter differences applied to `exact`.
* A rectifier is relaxed on `exact`, and the staircase that replaces it on the quantized side is
  relaxed on the sum of both; each relaxation error gets a symbol of its own for every neuron.
-/

namespace QuantEnclosure

open Scalar

/-- How the input region is quantized, and up to which dimension its corners are enumerated. -/
structure EngineConfig where
  method : RegionMethod
  vertexLimit : Nat
  deriving DecidableEq, Repr

def EngineConfig.standard : EngineConfig := ⟨.auto, 16⟩

/-- What is recorded after each layer. -/
structure LayerRecord (α : Type) where
  index : Nat
  activation : Activation
  exactGenerators : Nat
  errorGenerators : Nat
  /-- The interval hull of the error in real units. -/
  errorBounds : List (Bound α)
  /-- The number of rectifiers that see both signs on the real trajectory. -/
  unstable : Nat
  /-- How often each staircase case occurs on the quantized trajectory. -/
  cases : List Nat
  deriving DecidableEq, Repr

/-- The enclosure, the record of every layer and the way the region was quantized. -/
structure Analysis (α : Type) where
  error : Zonotope α
  trace : List (LayerRecord α)
  method : RegionMethod

def Analysis.errorBounds {α : Type} [Scalar α] (a : Analysis α) : Outcome (List (Bound α)) :=
  a.error.hull

/-- The real trajectory and the error on the same noise symbols. -/
structure Trajectory (α : Type) where
  exact : Zonotope α
  error : Zonotope α

namespace Trajectory

variable {α : Type} [Scalar α]

/-! ## The input region -/

/-- The error of one coordinate of the region: the slope of the linear part that takes its
interval to the quantized interval, and the largest distance of the rounding error from it. -/
def inputError (f : Format) (hull quantized : Bound α) (radius quantizedRadius : α) :
    Outcome (α × α) :=
  if radius == 0 then .ok (0, 0)
  else do
    let range ← f.errorRange hull
    let atLower := quantized.lower - hull.lower
    let atUpper := quantized.upper - hull.upper
    .ok (quantizedRadius / radius - 1,
      greater (range.upper - lesser atLower atUpper) (greater atLower atUpper - range.lower))

/-- `inputError` of every coordinate.  The lists that `start` passes have one entry for each
coordinate (`start_lengths`), so that they end together and none is cut off. -/
def inputErrors (f : Format) : List (Bound α) → List (Bound α) → List α → List α →
    Outcome (List (α × α))
  | h :: hs, q :: qs, r :: rs, s :: ss => do
    let e ← inputError f h q r s
    let es ← inputErrors f hs qs rs ss
    .ok (e :: es)
  | _, _, _, _ => .ok []

/-- The trajectory before the first layer: the error follows the region's own symbols, and one
more symbol for each coordinate stands for what rounding adds. -/
def start (cfg : EngineConfig) (f : Format) (region : Zonotope α) :
    Outcome (Trajectory α × RegionMethod) := do
  let hull ← region.finiteHull
  let (quantized, method) ← f.quantizeRegion region cfg.method cfg.vertexLimit
  let quantizedHull ← quantized.hull
  let errors ← inputErrors f hull quantizedHull region.radii quantized.radii
  let linear ← Zonotope.rowScaling (errors.map Prod.fst) region.generators
  let error ← Zonotope.ofParts (Vec.sub quantized.center region.center) linear
  let error ← error.appendColumns (Matrix.diagonal (errors.map Prod.snd))
  .ok (⟨region.pad region.dim, error⟩, method)

/-! ## Layers -/

/-- Both zonotopes have the same symbols and the same dimension. -/
def ensureAligned (t : Trajectory α) : Outcome Unit := do
  let _ ← ensureDim "error generator alignment" t.exact.order t.error.order
  let _ ← ensureDim "error dimension" t.exact.dim t.error.dim
  .ok ()

def affineStep (l : LiftedLayer α) (t : Trajectory α) : Outcome (Trajectory α) := do
  t.ensureAligned
  let _ ← ensureDim "layer input" l.inputDim t.exact.dim
  let deltaWeight := l.quantWeight.sub l.weight
  let deltaBias := Vec.sub l.quantBias l.bias
  let center := Vec.add
    (Vec.add (deltaWeight.mulVec t.exact.center) (l.quantWeight.mulVec t.error.center)) deltaBias
  let generators :=
    (deltaWeight.mul t.exact.generators).add (l.quantWeight.mul t.error.generators)
  let error ← Zonotope.ofParts center generators
  let exact ← t.exact.affineMap l.weight l.bias
  .ok ⟨exact, error⟩

/-- The relaxations that a rectifier step applies, with the case of every neuron. -/
structure Relaxed (α : Type) where
  exact : List (Relaxation α × ReluCase)
  quantized : List (Relaxation α × RoundClampCase)

/-- The relaxations of the rectifier on the real trajectory and of the staircase on the quantized
one. -/
def relax (ceiling : α) (t : Trajectory α) : Outcome (Relaxed α) := do
  let quantized ← t.exact.sum t.error
  let exactHull ← t.exact.finiteHull
  let quantizedHull ← quantized.finiteHull
  let staircase ← quantizedHull.mapM fun b => roundClampRelaxation b ceiling
  .ok ⟨exactHull.map reluRelaxation, staircase⟩

def reluStep (ceiling : α) (t : Trajectory α) : Outcome (Trajectory α × Relaxed α) := do
  t.ensureAligned
  let relaxed ← t.relax ceiling
  let slope := relaxed.exact.map fun r => r.1.slope
  let offset := relaxed.exact.map fun r => r.1.offset
  let residue := relaxed.exact.map fun r => r.1.error
  let quantSlope := relaxed.quantized.map fun r => r.1.slope
  let quantOffset := relaxed.quantized.map fun r => r.1.offset
  let quantResidue := relaxed.quantized.map fun r => r.1.error
  let deltaSlope := Vec.sub quantSlope slope
  let deltaOffset := Vec.sub quantOffset offset
  let center := Vec.add
    (Vec.add (Vec.mul deltaSlope t.exact.center) (Vec.mul quantSlope t.error.center)) deltaOffset
  let fromExact ← Zonotope.rowScaling deltaSlope t.exact.generators
  let fromError ← Zonotope.rowScaling quantSlope t.error.generators
  let error ← Zonotope.ofParts center (fromExact.add fromError)
  let error ← error.appendColumns (Matrix.diagonal (residue.map (- ·)))
  let error ← error.appendColumns (Matrix.diagonal quantResidue)
  let generators ← Zonotope.rowScaling slope t.exact.generators
  let exact ← Zonotope.ofParts (Vec.add (Vec.mul slope t.exact.center) offset) generators
  let exact ← exact.appendColumns (Matrix.diagonal residue)
  .ok (⟨exact.pad t.exact.dim, error⟩, relaxed)

def activationStep (ceiling : α) : Activation → Trajectory α → Outcome (Trajectory α × Relaxed α)
  | .relu, t => t.reluStep ceiling
  | .identity, t => .ok (t, ⟨[], []⟩)

def countCases (cases : List RoundClampCase) : List Nat :=
  RoundClampCase.all.map fun c => cases.count c

/-- One layer: the trajectory after it and its record. -/
def step (scale ceiling : α) (index : Nat) (l : LiftedLayer α) (t : Trajectory α) :
    Outcome (Trajectory α × LayerRecord α) := do
  let t ← t.affineStep l
  let (t, relaxed) ← t.activationStep ceiling l.activation
  let errorBounds ← (t.error.scale (1 / scale)).hull
  .ok (t,
    { index := index
      activation := l.activation
      exactGenerators := t.exact.order
      errorGenerators := t.error.order
      errorBounds := errorBounds
      unstable := relaxed.exact.countP fun r => r.2 == .unstable
      cases := countCases (relaxed.quantized.map Prod.snd) })

/-- All layers, the first one at position `index`.  A refusal names its layer. -/
def run (scale ceiling : α) : Nat → List (LiftedLayer α) → Trajectory α →
    Outcome (Trajectory α × List (LayerRecord α))
  | _, [], t => .ok (t, [])
  | index, l :: rest, t =>
    match step scale ceiling index l t with
    | .error e => .error (e.inLayer index l.activation.name)
    | .ok (t, record) => do
      let (t, records) ← run scale ceiling (index + 1) rest t
      .ok (t, record :: records)

end Trajectory

/-- Encloses `quantized value - real value` of a network over every point of a region. -/
def propagate {α : Type} [Scalar α] (cfg : EngineConfig) (n : Network α) (c : Config)
    (region : Zonotope α) : Outcome (Analysis α) := do
  let _ ← ensureDim "input region" n.inputDim region.dim
  let fixed ← n.fixedPoint c
  let (t, method) ← Trajectory.start cfg fixed.input region
  let (t, trace) ← t.run fixed.scale fixed.ceiling 0 fixed.layers
  .ok ⟨t.error.scale (1 / fixed.scale), trace, method⟩

def errorZonotope {α : Type} [Scalar α] (n : Network α) (c : Config) (region : Zonotope α) :
    Outcome (Zonotope α) := do
  let a ← propagate .standard n c region
  .ok a.error

end QuantEnclosure
