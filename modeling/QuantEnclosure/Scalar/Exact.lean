import Mathlib.Data.Rat.Floor
import Mathlib.Algebra.Order.Ring.Abs
import Mathlib.Tactic.Linarith
import QuantEnclosure.Scalar

/-!
Exact arithmetic: the rational numbers as scalars.  Here every number is finite, and the
operations that are built from comparisons are the minimum, the maximum and the absolute value.
-/

namespace QuantEnclosure

instance Scalar.exact : Scalar ℚ where
  zero := 0
  one := 1
  decideLE := inferInstance
  decideLT := inferInstance
  round x := if 0 ≤ x then (⌊x + 1 / 2⌋ : ℚ) else -(⌊-x + 1 / 2⌋ : ℚ)
  floor x := (⌊x⌋ : ℚ)
  twoPow n := 2 ^ n
  isFinite _ := true
  text x := Decimal.Binary64.signText (decide (x < 0)) ++ Decimal.scientific 6 x.num.natAbs x.den

namespace Scalar

@[simp] theorem two_eq : (two : ℚ) = 2 := by
  show (1 : ℚ) + 1 = 2
  norm_num

@[simp] theorem half_eq : (half : ℚ) = 1 / 2 := by
  show (1 : ℚ) / two = 1 / 2
  rw [two_eq]

@[simp] theorem lesser_eq_min (a b : ℚ) : lesser a b = min a b := by
  unfold lesser
  split
  · next h => exact (min_eq_right h).symm
  · next h => simp [min_eq_left (le_of_not_ge h)]

@[simp] theorem greater_eq_max (a b : ℚ) : greater a b = max a b := by
  unfold greater
  split
  · next h => exact (max_eq_right h).symm
  · next h => simp [max_eq_left (le_of_not_ge h)]

@[simp] theorem magnitude_eq_abs (a : ℚ) : magnitude a = |a| := by
  unfold magnitude
  split
  · next h => exact (abs_of_neg h).symm
  · next h => exact (abs_of_nonneg (le_of_not_gt h)).symm

@[simp] theorem isFinite_exact (a : ℚ) : isFinite a = true := rfl

@[simp] theorem twoPow_exact (n : Int) : (twoPow n : ℚ) = 2 ^ n := rfl

end Scalar

end QuantEnclosure
