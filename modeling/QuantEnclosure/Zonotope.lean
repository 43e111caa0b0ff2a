import QuantEnclosure.Bound
import QuantEnclosure.Matrix

/-!
Zonotopes: the sets of points `c + G ξ`, where every entry of the noise vector `ξ` lies in
`[-1, 1]`.  Each column of `G` belongs to one noise symbol.  Affine images and sums are exact;
the interval hull is the smallest box around the set.
-/

namespace QuantEnclosure

open Scalar

/-- A center and one row of generator entries for each of its coordinates. -/
structure Zonotope (α : Type) where
  center : List α
  generators : Matrix α
  height_eq : generators.height = center.length

namespace Zonotope

variable {α : Type}

def dim (z : Zonotope α) : Nat := z.center.length

/-- The number of generators, which is the number of noise symbols. -/
def order (z : Zonotope α) : Nat := z.generators.cols

variable [Scalar α]

/-! ## Construction -/

/-- The zonotope with the given center and generators, which must be finite. -/
def ofParts (center : List α) (generators : Matrix α) : Outcome (Zonotope α) := do
  let ⟨h⟩ ← ensureDim "zonotope generator rows" center.length generators.height
  if Vec.isFinite center && generators.isFinite then
    .ok ⟨center, generators, h.symm⟩
  else
    refuse (.numericalInstability "zonotope has non-finite center or generator entries")

def point (center : List α) : Zonotope α where
  center := center
  generators := Matrix.zeros center.length 0
  height_eq := by simp [Matrix.height, Matrix.zeros]

def ofBox (bounds : List (Bound α)) : Zonotope α where
  center := bounds.map Bound.midpoint
  generators := Matrix.diagonal (bounds.map Bound.radius)
  height_eq := by simp [Matrix.height, Matrix.diagonal]

/-! ## Exact operations -/

/-- The image under `x ↦ W x + b`. -/
def affineMap (z : Zonotope α) (weight : Matrix α) (bias : List α) : Outcome (Zonotope α) := do
  let _ ← ensureDim "affine map input" weight.cols z.dim
  let ⟨h⟩ ← ensureDim "affine map bias" weight.height bias.length
  .ok
    { center := Vec.add (weight.mulVec z.center) bias
      generators := weight.mul z.generators
      height_eq := by
        simp only [Matrix.height] at h
        simp [Matrix.height, Matrix.mul, Vec.add, Matrix.mulVec, h] }

def scale (factor : α) (z : Zonotope α) : Zonotope α where
  center := Vec.scale factor z.center
  generators := z.generators.scale factor
  height_eq := by
    have h := z.height_eq
    simp only [Matrix.height] at h
    simp [Matrix.height, Matrix.scale, Matrix.map, Vec.scale, h]

/-- Generator columns appended to those of `z`, one row for each dimension. -/
def withColumns (z : Zonotope α) (columns : Matrix α) (h : columns.height = z.dim) :
    Zonotope α where
  center := z.center
  generators := z.generators.beside columns
  height_eq := by
    have h₁ := z.height_eq
    simp only [Matrix.height, dim] at h h₁
    simp [Matrix.height, Matrix.beside, h, h₁]

/-- Appends generator columns, if they have the right number of rows. -/
def appendColumns (z : Zonotope α) (columns : Matrix α) : Outcome (Zonotope α) := do
  let ⟨h⟩ ← ensureDim "appended generator rows" z.dim columns.height
  .ok (z.withColumns columns h.symm)

/-- Appends columns of zeros, which leave the set as it is. -/
def pad (z : Zonotope α) (extra : Nat) : Zonotope α :=
  z.withColumns (Matrix.zeros z.dim extra) (by simp [Matrix.height, Matrix.zeros])

/-- As `affineMap`, for an image that can be stored. -/
def affineMapStored (z : Zonotope α) (weight : Matrix α) (bias : List α) :
    Outcome (Zonotope α) := do
  let _ ← ensureDim "affine map input" weight.cols z.dim
  let _ ← ensureDim "affine map bias" weight.height bias.length
  Matrix.ensureStorable weight.height z.order
  z.affineMap weight bias

/-- As `pad`, for a result that can be stored. -/
def padStored (z : Zonotope α) (extra : Nat) : Outcome (Zonotope α) := do
  Matrix.ensureStorable z.dim (z.order + extra)
  .ok (z.pad extra)

/-- All sums of a point of `a` and a point of `b`, on separate noise symbols. -/
def sum (a b : Zonotope α) : Outcome (Zonotope α) := do
  let ⟨h⟩ ← ensureDim "minkowski sum" a.dim b.dim
  .ok
    { center := Vec.add a.center b.center
      generators := a.generators.beside b.generators
      height_eq := by
        have ha := a.height_eq
        have hb := b.height_eq
        simp only [Matrix.height, dim] at h ha hb
        simp [Matrix.height, Matrix.beside, Vec.add, ha, hb] }

def pointAt (z : Zonotope α) (noise : List α) : Outcome (List α) := do
  let _ ← ensureDim "noise assignment" z.order noise.length
  .ok (Vec.add z.center (z.generators.mulVec noise))

/-! ## Bounds -/

/-- For each dimension the sum of the absolute generator entries. -/
def radii (z : Zonotope α) : List α := z.generators.rows.map fun r => laneSum (r.map magnitude)

def hull (z : Zonotope α) : Outcome (List (Bound α)) :=
  (z.center.zip z.radii).mapM fun (c, r) => Bound.around c r

/-- The first unbounded interval, counted from `i`. -/
def firstUnbounded (i : Nat) : List (Bound α) → Option (Nat × Bound α)
  | [] => none
  | b :: rest => if b.isUnbounded then some (i, b) else firstUnbounded (i + 1) rest

/-- The interval hull, refused if an interval is not bounded. -/
def finiteHull (z : Zonotope α) : Outcome (List (Bound α)) := do
  let bounds ← z.hull
  match firstUnbounded 0 bounds with
  | none => .ok bounds
  | some (i, b) =>
    refuse (.numericalInstability s!"interval hull of dimension {i} is not finite: {b.toText}")

/-- Row `i` of a matrix times the factor `i`, if there are as many factors as rows. -/
def rowScaling (factors : List α) (m : Matrix α) : Outcome (Matrix α) := do
  let _ ← ensureDim "row scaling" m.height factors.length
  .ok (m.scaleRows factors)

end Zonotope

end QuantEnclosure
