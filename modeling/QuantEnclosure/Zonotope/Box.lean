import QuantEnclosure.Zonotope

/-!
Boxes and their corners.  A box of `n` intervals has `2^n` corners, listed with the first
dimension changing fastest; in the other direction a set of points has a smallest box around it.
-/

namespace QuantEnclosure.Box

variable {α : Type} [Scalar α]

/-- All corners of a box.  The corner that takes the upper end in the dimensions `i ∈ I` stands
at position `∑ i ∈ I, 2^i`. -/
def corners : List (Bound α) → List (List α)
  | [] => [[]]
  | b :: rest => (corners rest).flatMap fun v => [b.lower :: v, b.upper :: v]

/-- No box of this many dimensions is enumerated, whatever limit the caller sets. -/
def enumerationCap : Nat := 64

/-- The corners of a box, refused above `limit` dimensions. -/
def vertices (bounds : List (Bound α)) (limit : Nat) : Outcome (List (List α)) :=
  if limit < bounds.length ∨ enumerationCap ≤ bounds.length then
    refuse (.dimensionLimit bounds.length limit)
  else .ok (corners bounds)

def insert (bounds : List (Bound α)) (v : List α) : List (Bound α) :=
  List.zipWith Bound.insert bounds v

def insertAll (bounds : List (Bound α)) : List (List α) → Outcome (List (Bound α))
  | [] => .ok bounds
  | v :: rest => do
    let _ ← ensureDim "vertex dimension" bounds.length v.length
    insertAll (insert bounds v) rest

def around : List (List α) → Outcome (List (Bound α))
  | [] => refuse (.invalidConfig "cannot bound an empty vertex set")
  | v :: rest => insertAll (v.map Bound.point) rest

end QuantEnclosure.Box
