import QuantEnclosure.Bound

/-!
Linear relaxations of scalar functions.  A relaxation `(λ, μ, E)` of `f` over an interval says
that `f x` lies within `E` of `λ x + μ` for every `x` of the interval.  This module holds the
relaxations and those of `max x 0`.
-/

namespace QuantEnclosure

open Scalar

/-- The band of half-width `error` around the line `slope · x + offset`. -/
structure Relaxation (α : Type) where
  slope : α
  offset : α
  error : α
  deriving DecidableEq, Repr

namespace Relaxation

variable {α : Type} [Scalar α]

def constant (value : α) : Relaxation α := ⟨0, value, 0⟩

/-- The band between two parallel lines, `top` and `bottom` being their values at zero. -/
def ofIntercepts (slope top bottom : α) : Relaxation α :=
  ⟨slope, half * (top + bottom), half * (top - bottom)⟩

def band (r : Relaxation α) (x : α) : Outcome (Bound α) :=
  Bound.around (r.slope * x + r.offset) r.error

end Relaxation

inductive ReluCase where
  | inactive
  | active
  /-- Both signs occur. -/
  | unstable
  deriving DecidableEq, Repr

def ReluCase.name : ReluCase → String
  | .inactive => "Inactive"
  | .active => "Active"
  | .unstable => "Unstable"

variable {α : Type} [Scalar α]

def rectify (x : α) : α := greater x 0

/-- The narrowest relaxation of the rectifier: exact where the sign is fixed, and otherwise the
band over the chord. -/
def reluRelaxation (b : Bound α) : Relaxation α × ReluCase :=
  let l := b.lower
  let u := b.upper
  if u ≤ 0 then (.constant 0, .inactive)
  else if 0 ≤ l then (⟨1, 0, 0⟩, .active)
  else
    let offset := -u * l / (two * (u - l))
    (⟨u / (u - l), offset, offset⟩, .unstable)

end QuantEnclosure
