import QuantEnclosure.Decimal.Shortest

/-!
The arithmetic of the analysis.  Every computation is written over a type of scalars, so that
the same definitions run on binary64 numbers and can be read in exact rational arithmetic.  The
operations that are not primitive (`lesser`, `greater`, `magnitude`) are defined here once from
comparisons.
-/

namespace QuantEnclosure

/-- Numbers with the operations that the analysis uses.  No law is required. -/
class Scalar (α : Type) extends Zero α, One α, Add α, Sub α, Mul α, Div α, Neg α, LE α, LT α,
    BEq α where
  decideLE : DecidableLE α
  decideLT : DecidableLT α
  /-- The nearest integer, a half going away from zero. -/
  round : α → α
  /-- The largest integer that is not above the number. -/
  floor : α → α
  /-- The power `2^n`. -/
  twoPow : Int → α
  isFinite : α → Bool
  /-- Text with six digits after the point and an exponent. -/
  text : α → String

instance Scalar.instDecidableLE {α : Type} [Scalar α] : DecidableLE α := Scalar.decideLE

instance Scalar.instDecidableLT {α : Type} [Scalar α] : DecidableLT α := Scalar.decideLT

/-- Powers of two by repeated squaring: a power that is too large is infinite, and a negative
exponent gives the reciprocal of the positive power. -/
instance Scalar.binary64 : Scalar Float where
  zero := 0.0
  one := 1.0
  decideLE := fun a b => inferInstanceAs (Decidable (a ≤ b))
  decideLT := fun a b => inferInstanceAs (Decidable (a < b))
  round := Float.round
  floor := Float.floor
  twoPow n := if n < 0 then 1.0 / Float.scaleB 1.0 (-n) else Float.scaleB 1.0 n
  isFinite := Float.isFinite
  text x := (Decimal.Binary64.ofFloat x).scientificText

namespace Scalar

variable {α : Type} [Scalar α]

def two : α := 1 + 1

def half : α := 1 / two

/-- The smaller of two numbers; an operand that is not a number is ignored. -/
def lesser (a b : α) : α := if b ≤ a then b else if a == a then a else b

/-- The larger of two numbers; an operand that is not a number is ignored. -/
def greater (a b : α) : α := if a ≤ b then b else if a == a then a else b

def magnitude (a : α) : α := if a < 0 then -a else a

end Scalar

end QuantEnclosure
