import QuantEnclosure.Scalar
import QuantEnclosure.Outcome

/-!
Intervals of scalars.  An interval built from its ends or from a center and a radius is checked;
the hull of intervals and points is not, so that an interval can also hold what an overflowing
computation produced.
-/

namespace QuantEnclosure

open Scalar

structure Bound (α : Type) where
  lower : α
  upper : α
  deriving DecidableEq, Repr

/-- The number between `low` and `high` that is nearest to `x`; something that is not a number
stays so. -/
def Scalar.nearestIn {α : Type} [Scalar α] (low high x : α) : α :=
  if x < low then low else if high < x then high else x

/-- `nearestIn` for limits that must be in order. -/
def Scalar.clamp {α : Type} [Scalar α] (low high x : α) : Outcome α :=
  if low ≤ high then .ok (nearestIn low high x) else violate .orderedLimits

namespace Bound

variable {α : Type} [Scalar α]

def between (lower upper : α) : Outcome (Bound α) :=
  if lower ≤ upper then .ok ⟨lower, upper⟩ else violate .orderedEnds

/-- The interval of all numbers within `radius` of `center`. -/
def around (center radius : α) : Outcome (Bound α) :=
  if 0 ≤ radius then .ok ⟨center - radius, center + radius⟩ else violate .nonnegativeRadius

def point (x : α) : Bound α := ⟨x, x⟩

def contains (b : Bound α) (x : α) : Bool := b.lower ≤ x && x ≤ b.upper

def encloses (b c : Bound α) : Bool := b.lower ≤ c.lower && c.upper ≤ b.upper

def width (b : Bound α) : α := b.upper - b.lower

def midpoint (b : Bound α) : α := half * (b.lower + b.upper)

def radius (b : Bound α) : α := half * (b.upper - b.lower)

/-- Whether an end is infinite or not a number. -/
def isUnbounded (b : Bound α) : Bool := !isFinite b.lower || !isFinite b.upper

def union (b c : Bound α) : Bound α := ⟨lesser b.lower c.lower, greater b.upper c.upper⟩

def insert (b : Bound α) (x : α) : Bound α := ⟨lesser b.lower x, greater b.upper x⟩

/-- The interval as it is written in messages: `[0.000000e0, 1.500000e0]`. -/
def toText (b : Bound α) : String := "[" ++ Scalar.text b.lower ++ ", " ++ Scalar.text b.upper ++ "]"

end Bound

end QuantEnclosure
