import QuantEnclosure.Decimal.Shortest

/-!
Numbers of JSON texts.  A numeral is what is written; a number is what it stands for: an integer
that fits 64 bits, or a binary64 value.  The value of a decimal is found with one multiplication
or division by a power of ten, so it can miss the nearest binary64 number by a little.
-/

namespace QuantEnclosure.Json

/-- A number as it is written: digits before and after the point, and an exponent. -/
structure Numeral where
  negative : Bool
  whole : List Nat
  fraction : List Nat
  /-- The sign and the digits of the exponent. -/
  exponent : Option (Bool × List Nat)
  deriving DecidableEq, Repr

inductive Number where
  | int (value : Int)
  | real (value : Float)

namespace Numeral

/-- The largest significand, the largest 64-bit word. -/
def significandLimit : Nat := 18446744073709551615

/-- Exponents are kept up to the largest signed 32-bit word. -/
def exponentLimit : Nat := 2147483647

/-- Appends digits to a number while it stays within `limit`, and returns the digits that are
left over from the first one that does not fit. -/
def absorb (limit acc : Nat) : List Nat → Nat × List Nat
  | [] => (acc, [])
  | d :: ds => if limit < acc * 10 + d then (acc, d :: ds) else absorb limit (acc * 10 + d) ds

def floatTenPow (k : Nat) : Float := Float.ofScientific 1 false k

/-- The largest power of ten that is a binary64 number. -/
def maxTenPow : Nat := 308

/-- `f / 10^k`, in steps of the largest power of ten. -/
def shrink (f : Float) (k : Nat) : Float :=
  if k ≤ maxTenPow then f / floatTenPow k
  else if f == 0.0 then f
  else shrink (f / floatTenPow maxTenPow) (k - maxTenPow)
termination_by k
decreasing_by simp_all [maxTenPow]; omega

/-- `significand · 10^exponent`, if that is finite. -/
def scaled? (significand : Nat) (exponent : Int) : Option Float :=
  let f := significand.toUInt64.toFloat
  if exponent < 0 then some (shrink f exponent.natAbs)
  else if exponent.toNat ≤ maxTenPow then
    let g := f * floatTenPow exponent.toNat
    if g.isInf then none else some g
  else if f == 0.0 then some f
  else none

/-- The significand and the decimal exponent of the digits: of each part the digits that no
longer fit are dropped, and before the point each of them counts for a power of ten. -/
def significand (n : Numeral) : Nat × Int :=
  let (w, dropped) := absorb significandLimit 0 n.whole
  let (s, rest) := absorb significandLimit w n.fraction
  (s, (dropped.length : Int) - ((n.fraction.length : Int) - rest.length))

/-- The value without its sign, for a numeral with a fraction, an exponent or too many digits. -/
def real? (n : Numeral) : Option Float :=
  let (s, e) := n.significand
  match n.exponent with
  | none => scaled? s e
  | some (negative, ds) =>
    let (x, rest) := absorb exponentLimit 0 ds
    if rest.isEmpty then scaled? s (if negative then e - x else e + x)
    else if negative || s == 0 then some 0.0
    else none

/-- The value of a numeral; none if it is too large for a binary64 number. -/
def value? (n : Numeral) : Option Number :=
  let (w, dropped) := absorb significandLimit 0 n.whole
  if n.fraction.isEmpty && n.exponent.isNone && dropped.isEmpty then
    if !n.negative then some (.int w)
    else if w = 0 || 9223372036854775808 < w then some (.real (-(w.toUInt64.toFloat)))
    else some (.int (-(w : Int)))
  else n.real?.map fun f => .real (if n.negative then -f else f)

end Numeral

namespace Number

def toFloat : Number → Float
  | .real f => f
  | .int i =>
    let f := i.natAbs.toUInt64.toFloat
    if i < 0 then -f else f

/-- Numbers whose leading digit stands from the fifth place after the point to the sixteenth
before it have no exponent; whole numbers keep a point, and a tie goes to the even digit. -/
def style : Decimal.Style := ⟨.even, some (-5, 15), true⟩

def text : Number → String
  | .int i => toString i
  | .real x => (Decimal.Binary64.ofFloat x).text style

end Number

end QuantEnclosure.Json
