import QuantEnclosure.Format
import QuantEnclosure.Zonotope.Box

/-!
Quantization of a whole region.  The numbers that a format gives for the points of a zonotope lie
in a box, found in one of two ways: by quantizing every corner of the interval hull, or by
quantizing the ends of every interval.  The first costs `2^n` and is refused above a limit.
-/

namespace QuantEnclosure

/-- How the box of a quantized region is found. -/
inductive RegionMethod where
  | vertexEnumeration
  | perDimension
  /-- Enumeration up to the limit, the closed form above it. -/
  | auto
  deriving DecidableEq, Repr

def RegionMethod.name : RegionMethod → String
  | .vertexEnumeration => "vertex_enumeration"
  | .perDimension => "per_dimension"
  | .auto => "auto"

/-- The method that is applied to a region of dimension `dim`, never `auto`. -/
def RegionMethod.applied (m : RegionMethod) (dim limit : Nat) : RegionMethod :=
  match m with
  | .vertexEnumeration => .vertexEnumeration
  | .perDimension => .perDimension
  | .auto => if dim ≤ limit then .vertexEnumeration else .perDimension

namespace Format

variable {α : Type} [Scalar α]

/-- The box around the quantized corners of the interval hull.  Every box has a corner
(`Box.corners_ne_nil`), so that no points at all need no refusal of their own here. -/
def enumerateRegion (f : Format) (z : Zonotope α) (limit : Nat) : Outcome (Zonotope α) := do
  let bounds ← z.finiteHull
  let points ← Box.vertices bounds limit
  let quantized ← points.mapM f.quantizeVec
  let box ← Box.around quantized
  .ok (Zonotope.ofBox box)

def closedRegion (f : Format) (z : Zonotope α) : Outcome (Zonotope α) := do
  let bounds ← z.finiteHull
  let box ← f.quantizeBox bounds
  .ok (Zonotope.ofBox box)

def quantizeRegion (f : Format) (z : Zonotope α) (method : RegionMethod) (limit : Nat) :
    Outcome (Zonotope α × RegionMethod) := do
  match method.applied z.dim limit with
  | .perDimension => .ok (← f.closedRegion z, .perDimension)
  | _ => .ok (← f.enumerateRegion z limit, .vertexEnumeration)

end Format

end QuantEnclosure
