import Mathlib.Data.Set.Basic
import QuantEnclosure.Proofs.Format.Quantizer

/-!
Rounding to a format is the projection to the nearest represented number.  `Nearest` says what
that is for any set of numbers: no number of the set is nearer, and of two that are equally near
the one of larger magnitude is taken.  This determines the number (`Nearest.unique`).  Rounding to
an integer has this property, the clamp keeps it on a range of integers
(`nearest_nearestIn_round`), and the gap of the format carries it to the grid (`Nearest.mul_right`).
-/

namespace QuantEnclosure

open Scalar

/-! ## Nearest numbers -/

/-- The number `y` of the set `s` is nearest to `x`, and of larger magnitude than any other number
of the set that is as near. -/
structure Nearest (s : Set ℚ) (x y : ℚ) : Prop where
  mem : y ∈ s
  le : ∀ z ∈ s, |x - y| ≤ |x - z|
  tie : ∀ z ∈ s, |x - z| = |x - y| → z ≠ y → |z| < |y|

section

variable {s : Set ℚ} {x y z : ℚ}

/-- Two nearest numbers would each have to be of larger magnitude than the other. -/
theorem Nearest.unique (hy : Nearest s x y) (hz : Nearest s x z) : y = z := by
  by_contra hne
  have hdist : |x - y| = |x - z| := le_antisymm (hy.le z hz.mem) (hz.le y hy.mem)
  have h₁ := hy.tie z hz.mem hdist.symm (Ne.symm hne)
  have h₂ := hz.tie y hy.mem hdist hne
  exact lt_asymm h₁ h₂

/-- A number of the set is nearest to itself. -/
theorem nearest_self (h : x ∈ s) : Nearest s x x := by
  refine ⟨h, fun z _ => ?_, fun z _ hdist hne => ?_⟩
  · rw [sub_self, abs_zero]
    exact abs_nonneg _
  · rw [sub_self, abs_zero, abs_eq_zero, sub_eq_zero] at hdist
    exact absurd hdist.symm hne

/-- If every other number of the set is farther, or as far and of smaller magnitude, the number is
nearest. -/
theorem nearest_of_forall (h : y ∈ s)
    (hs : ∀ z ∈ s, z ≠ y → |x - y| < |x - z| ∨ |x - y| = |x - z| ∧ |z| < |y|) :
    Nearest s x y := by
  refine ⟨h, fun z hz => ?_, fun z hz hdist hne => ?_⟩
  · rcases eq_or_ne z y with rfl | hne
    · exact le_rfl
    · rcases hs z hz hne with hlt | ⟨heq, _⟩
      · exact hlt.le
      · exact heq.le
  · rcases hs z hz hne with hlt | ⟨_, hmag⟩
    · exact absurd hdist hlt.ne'
    · exact hmag

/-- Stretching the line keeps what is nearest. -/
theorem Nearest.mul_right (h : Nearest s x y) {g : ℚ} (hg : 0 < g) :
    Nearest ((· * g) '' s) (x * g) (y * g) := by
  have hdist : ∀ z, |x * g - z * g| = |x - z| * g := by
    intro z
    rw [← sub_mul, abs_mul, abs_of_pos hg]
  refine ⟨⟨y, h.mem, rfl⟩, ?_, ?_⟩
  · rintro _ ⟨z, hz, rfl⟩
    rw [hdist, hdist]
    exact mul_le_mul_of_nonneg_right (h.le z hz) hg.le
  · rintro _ ⟨z, hz, rfl⟩ heq hne
    rw [hdist, hdist] at heq
    have hmag := h.tie z hz (mul_right_cancel₀ hg.ne' heq) fun hzy => hne (by rw [hzy])
    rw [abs_mul, abs_mul]
    exact mul_lt_mul_of_pos_right hmag (abs_pos.mpr hg.ne')

end

/-! ## Integers -/

def integersBetween (low high : ℤ) : Set ℚ := {y | ∃ k : ℤ, low ≤ k ∧ k ≤ high ∧ y = k}

/-- Rounding and then clamping gives the nearest integer of a range.  Where the clamp acts, the
number is at least half a unit beyond the range, so the end of the range is nearer than the rest of
it and there is no tie. -/
theorem nearest_nearestIn_round {low high : ℤ} (h : low ≤ high) (x : ℚ) :
    Nearest (integersBetween low high) x (nearestIn (low : ℚ) high (Scalar.round x)) := by
  obtain ⟨k, hk⟩ := exists_round_eq x
  obtain ⟨h₁, h₂⟩ := round_within x
  rw [hk] at h₁ h₂ ⊢
  unfold nearestIn
  split
  · next hlow =>
    have hstep : (k : ℚ) + 1 ≤ low := by exact_mod_cast hlow
    refine nearest_of_forall ⟨low, le_rfl, h, rfl⟩ ?_
    rintro _ ⟨j, hj, _, rfl⟩ hne
    have hlt : (low : ℚ) < j := lt_of_le_of_ne (by exact_mod_cast hj) (Ne.symm hne)
    left
    rw [abs_of_neg (by linarith), abs_of_neg (by linarith)]
    linarith
  · next hlow =>
    split
    · next hhigh =>
      have hstep : (high : ℚ) + 1 ≤ k := by exact_mod_cast hhigh
      refine nearest_of_forall ⟨high, h, le_rfl, rfl⟩ ?_
      rintro _ ⟨j, _, hj, rfl⟩ hne
      have hlt : (j : ℚ) < high := lt_of_le_of_ne (by exact_mod_cast hj) hne
      left
      rw [abs_of_pos (by linarith), abs_of_pos (by linarith)]
      linarith
    · next hhigh =>
      refine nearest_of_forall ⟨k, by exact_mod_cast not_lt.mp hlow,
        by exact_mod_cast not_lt.mp hhigh, rfl⟩ ?_
      rintro _ ⟨j, _, _, rfl⟩ hne
      exact round_nearer hk fun hjk => hne (by rw [hjk])

/-! ## The grid of a format -/

namespace Format

/-- The represented numbers: the multiples of `2^-scaling` by the integers of the range. -/
def grid (f : Format) : Set ℚ :=
  {y | ∃ k : ℤ, f.least ≤ k ∧ k ≤ f.greatest ∧ y = k * 2 ^ (-f.scaling.toInt)}

theorem image_integersBetween (f : Format) :
    (· * f.gap) '' integersBetween f.least f.greatest = f.grid := by
  ext y
  constructor
  · rintro ⟨_, ⟨k, hl, hg, rfl⟩, rfl⟩
    exact ⟨k, hl, hg, rfl⟩
  · rintro ⟨k, hl, hg, rfl⟩
    exact ⟨k, ⟨k, hl, hg, rfl⟩, rfl⟩

theorem nearest_rounded (f : Format) (x : ℚ) : Nearest f.grid x (f.rounded x) := by
  have hle : f.least ≤ f.greatest := by exact_mod_cast f.least_le_greatest
  have hx : x * f.scaleFactor * f.gap = x := by
    rw [mul_assoc, scaleFactor_mul_gap, mul_one]
  have h := (nearest_nearestIn_round hle (x * f.scaleFactor)).mul_right f.gap_pos
  rwa [hx, image_integersBetween] at h

theorem rounded_of_mem_grid {f : Format} {y : ℚ} (h : y ∈ f.grid) : f.rounded y = y :=
  (f.nearest_rounded y).unique (nearest_self h)

/-- In a valid format every number is rounded to the nearest represented one, of two that are
equally near to the one of larger magnitude, and there is only one such number.  So rounding twice
is rounding once, the order of numbers is kept, and every represented number stays as it is. -/
theorem quantize_projects (f : Format) (hf : f.validate = .ok ()) :
    f.intRange = .ok ((f.least : ℚ), (f.greatest : ℚ)) ∧
      ∃ q : ℚ → ℚ, (∀ x, f.quantize x = .ok (q x)) ∧ (∀ x y, Nearest f.grid x y ↔ y = q x) ∧
        (∀ x, q (q x) = q x) ∧ Monotone q ∧ ∀ y ∈ f.grid, q y = y := by
  have hv := validateAs_eq_ok.mp hf
  refine ⟨intRange_eq hv, f.rounded, quantize_eq hv, fun x y => ⟨?_, ?_⟩, fun x => ?_,
    fun x y => f.rounded_mono, fun y => rounded_of_mem_grid⟩
  · intro h
    exact h.unique (f.nearest_rounded x)
  · rintro rfl
    exact f.nearest_rounded x
  · exact rounded_of_mem_grid (f.nearest_rounded x).mem

/-- Halfway between `-6` and `-4` the format with gap 2 takes `-6`; beyond its range from `-8` to
`6` it takes the end. -/
theorem coarseFormat_projects :
    (⟨.symmetric, 3, -1⟩ : Format).validate = .ok () ∧
      (⟨.symmetric, 3, -1⟩ : Format).quantize (-5 : ℚ) = .ok (-6) ∧
      Nearest (grid ⟨.symmetric, 3, -1⟩) (-5) (-6) ∧
      (-4 : ℚ) ∈ grid ⟨.symmetric, 3, -1⟩ ∧ |(-5 : ℚ) - -4| = |(-5 : ℚ) - -6| ∧
      (⟨.symmetric, 3, -1⟩ : Format).quantize (9 : ℚ) = .ok 6 ∧
      Nearest (grid ⟨.symmetric, 3, -1⟩) 9 6 := by
  obtain ⟨_, q, hq, hnear, _⟩ := quantize_projects ⟨.symmetric, 3, -1⟩ rfl
  have htie : (⟨.symmetric, 3, -1⟩ : Format).quantize (-5 : ℚ) = .ok (-6) := by decide +kernel
  have hend : (⟨.symmetric, 3, -1⟩ : Format).quantize (9 : ℚ) = .ok 6 := by decide +kernel
  have h₁ : -6 = q (-5) := Except.ok.inj (htie.symm.trans (hq _))
  have h₂ : 6 = q 9 := Except.ok.inj (hend.symm.trans (hq _))
  exact ⟨rfl, htie, (hnear _ _).mpr h₁, ⟨-2, by decide, by decide, by decide +kernel⟩,
    by norm_num, hend, (hnear _ _).mpr h₂⟩

end Format

end QuantEnclosure
