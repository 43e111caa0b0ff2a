/-!
What a binary64 word stands for: not a number, an infinity, or an integer times a power of two.
All text of floating point numbers starts from this reading.
-/

namespace QuantEnclosure.Decimal

/-- A binary64 value in exact terms. -/
inductive Binary64 where
  | nan
  | infinite (negative : Bool)
  /-- The number `± mantissa · 2^exponent`. -/
  | finite (negative : Bool) (mantissa : Nat) (exponent : Int)
  deriving DecidableEq, Repr

namespace Binary64

/-- The least exponent of a finite word, shared by zero, the subnormals and the first binade. -/
def leastExponent : Int := -1074

/-- The first integer with 53 binary digits, the least mantissa of a normal number. -/
def leastNormal : Nat := 0x10000000000000

/-- Reads the three fields of a word: sign, biased exponent and fraction. -/
def ofBits (word : UInt64) : Binary64 :=
  let w := word.toNat
  let negative := decide (0x8000000000000000 ≤ w)
  let biased : Nat := w / leastNormal % 2048
  let fraction : Nat := w % leastNormal
  if biased = 2047 then
    if fraction = 0 then .infinite negative else .nan
  else if biased = 0 then .finite negative fraction leastExponent
  else .finite negative (leastNormal + fraction) ((biased : Int) - 1075)

def ofFloat (x : Float) : Binary64 := ofBits x.toBits

def fraction (mantissa : Nat) (exponent : Int) : Nat × Nat :=
  if 0 ≤ exponent then (mantissa * Nat.pow 2 exponent.toNat, 1)
  else (mantissa, Nat.pow 2 exponent.natAbs)

def signText (negative : Bool) : String := if negative then "-" else ""

end Binary64

end QuantEnclosure.Decimal
