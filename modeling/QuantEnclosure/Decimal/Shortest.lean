import QuantEnclosure.Decimal.Scientific
import QuantEnclosure.Decimal.Binary64

/-!
The shortest decimal text that reads back as the same binary64 number.  A decimal reads back
when it lies in the interval of numbers that round to the word; among the decimals of the least
length the nearest one is taken.  What is left open by this (which of two equally near decimals is
taken, and where a decimal is written with an exponent) is a `Style`.
-/

namespace QuantEnclosure.Decimal

/-- Which of two equally near decimals is taken. -/
inductive Tie where
  | up
  /-- The one with the even last digit. -/
  | even
  deriving DecidableEq, Repr

/-- A positive decimal number `digits · 10^exponent`. -/
structure Digits where
  digits : Nat
  exponent : Int
  deriving DecidableEq, Repr

/-- The numbers that round to `mantissa · 2^exponent`, in quarters of the last place: from `low`
to `high` around `middle`, the ends included when the mantissa is even. -/
structure Neighbourhood where
  low : Nat
  middle : Nat
  high : Nat
  closed : Bool
  exponent : Int

/-- The gap below a power of two is half as wide as the gap above it. -/
def Neighbourhood.of (mantissa : Nat) (exponent : Int) : Neighbourhood where
  low := if mantissa = Binary64.leastNormal ∧ Binary64.leastExponent < exponent then 4 * mantissa - 1
    else 4 * mantissa - 2
  middle := 4 * mantissa
  high := 4 * mantissa + 2
  closed := mantissa % 2 = 0
  exponent := exponent - 2

/-- Compares the decimal `d` with `quarters · 2^exponent`. -/
def Digits.compare (d : Digits) (quarters : Nat) (exponent : Int) : Ordering :=
  let (n, k) := Binary64.fraction quarters exponent
  let (a, b) := shift d.digits 1 d.exponent
  Ord.compare (a * k) (n * b)

/-- Whether the decimal `d` reads back as the number in the middle. -/
def Neighbourhood.contains (b : Neighbourhood) (d : Digits) : Bool :=
  let fromLow := d.compare b.low b.exponent
  let toHigh := d.compare b.high b.exponent
  (fromLow == .gt || (b.closed && fromLow == .eq)) && (toHigh == .lt || (b.closed && toHigh == .eq))

/-- The decimals next to the middle on the grid of `count` significant digits: the nearest one
that reads back. -/
def Neighbourhood.onGrid (b : Neighbourhood) (tie : Tie) (count : Nat) : Option Digits :=
  let (n, d) := Binary64.fraction b.middle b.exponent
  let g := leadingExponent n d + 1 - count
  let (n', d') := shift n d (-g)
  let q := n' / d'
  let r := n' % d'
  let below : Digits := ⟨q, g⟩
  let above : Digits := ⟨q + 1, g⟩
  if b.contains below && b.contains above then
    if 2 * r < d' ∨ (2 * r = d' ∧ tie = .even ∧ q % 2 = 0) then some below else some above
  else if b.contains below then some below
  else if b.contains above then some above
  else none

/-- The shortest decimal of `mantissa · 2^exponent`.  Seventeen digits always read back. -/
def shortest (tie : Tie) (mantissa : Nat) (exponent : Int) : Digits :=
  let b := Neighbourhood.of mantissa exponent
  ((List.range 17).findSome? fun k => b.onGrid tie (k + 1)).getD ⟨0, 0⟩

/-! ## Text -/

structure Style where
  tie : Tie
  /-- The exponents of the leading digit, from the first to the second, for which a number is
  written without an exponent; without a range that is always so. -/
  positional : Option (Int × Int)
  /-- Whether a whole number without an exponent ends in `.0`. -/
  pointed : Bool

/-- The digits without zeros at the end, and the exponent of the last one. -/
def Digits.significant (d : Digits) : List Char × Int :=
  let all := Nat.toDigits 10 d.digits
  let kept := (all.reverse.dropWhile (· == '0')).reverse
  (kept, d.exponent + ((all.length : Int) - kept.length))

/-- Digits with the last one at `exponent`, without an exponent in the text. -/
def positionalText (pointed : Bool) (digits : List Char) (exponent : Int) : String :=
  if 0 ≤ exponent then
    String.ofList (digits ++ List.replicate exponent.toNat '0') ++ (if pointed then ".0" else "")
  else
    let places := exponent.natAbs
    let padded := List.replicate (places + 1 - digits.length) '0' ++ digits
    let cut := padded.length - places
    String.ofList (padded.take cut ++ '.' :: padded.drop cut)

/-- Digits with the first one at `exponent`, such as `1.5e+20`, `2e-7`. -/
def exponentText (digits : List Char) (exponent : Int) : String :=
  let point := if digits.length ≤ 1 then [] else '.' :: digits.drop 1
  let sign := if exponent < 0 then "-" else "+"
  String.ofList (digits.take 1 ++ point) ++ "e" ++ sign ++ toString exponent.natAbs

def Style.digits (s : Style) (d : Digits) : String :=
  let (ds, last) := d.significant
  let leading := last + ds.length - 1
  let inRange := match s.positional with
    | none => true
    | some (low, high) => decide (low ≤ leading ∧ leading ≤ high)
  if inRange then positionalText s.pointed ds last else exponentText ds leading

def Binary64.text (s : Style) : Binary64 → String
  | .nan => "NaN"
  | .infinite negative => signText negative ++ "inf"
  | .finite negative 0 _ => signText negative ++ positionalText s.pointed ['0'] 0
  | .finite negative m e => signText negative ++ s.digits (shortest s.tie m e)

def Binary64.scientificText : Binary64 → String
  | .nan => "NaN"
  | .infinite s => signText s ++ "inf"
  | .finite s m e =>
    let (n, d) := fraction m e
    signText s ++ scientific 6 n d

end QuantEnclosure.Decimal
