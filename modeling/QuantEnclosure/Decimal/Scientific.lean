/-!
Scientific notation of an exact fraction: one digit before the point, a fixed number of digits
after it, and a decimal exponent.  The digits are those of the fraction itself, rounded once, and
an exact tie goes to the even last digit.
-/

namespace QuantEnclosure.Decimal

/-- The quotient `num / den` rounded to the nearest natural number, ties to the even one. -/
def roundDiv (num den : Nat) : Nat :=
  let q := num / den
  let r := num % den
  if 2 * r < den then q else if den < 2 * r then q + 1 else if q % 2 = 0 then q else q + 1

def digitCount (n : Nat) : Nat := (Nat.toDigits 10 n).length

def tenPow (k : Nat) : Nat := Nat.pow 10 k

def shift (num den : Nat) (k : Int) : Nat × Nat :=
  if 0 ≤ k then (num * tenPow k.toNat, den) else (num, den * tenPow k.natAbs)

/-- The exponent `e` with `10^e ≤ num / den < 10^(e+1)`, for a positive fraction. -/
def leadingExponent (num den : Nat) : Int :=
  let e : Int := (digitCount num : Int) - digitCount den
  let (n, d) := shift num den (-e)
  if d ≤ n then e else e - 1

/-- The digits of `n`, filled with zeros on the left up to `width`. -/
def paddedDigits (width n : Nat) : List Char :=
  let ds := Nat.toDigits 10 n
  List.replicate (width - ds.length) '0' ++ ds

/-- `num / den` with `places` digits after the point, such as `1.500000e0`. -/
def scientific (places num den : Nat) : String :=
  let (mantissa, exponent) : Nat × Int :=
    if num = 0 then (0, 0)
    else
      let e := leadingExponent num den
      let (n, d) := shift num den ((places : Int) - e)
      let m := roundDiv n d
      if tenPow (places + 1) ≤ m then (tenPow places, e + 1) else (m, e)
  let ds := paddedDigits (places + 1) mantissa
  let point := if places = 0 then [] else '.' :: ds.drop 1
  String.ofList (ds.take 1 ++ point) ++ "e" ++ toString exponent

end QuantEnclosure.Decimal
