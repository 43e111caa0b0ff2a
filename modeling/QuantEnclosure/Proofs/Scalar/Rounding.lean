import QuantEnclosure.Scalar.Exact
import QuantEnclosure.Bound
import Mathlib.Tactic.Ring

/-!
Rounding and clamping in exact arithmetic.  `round` gives an integer within one half of its
argument and is monotone; no other integer is nearer (`round_nearer`).  `nearestIn` is monotone and
stays between its limits.
-/

namespace QuantEnclosure.Scalar

/-! ## Rounding -/

theorem round_of_nonneg {x : ℚ} (h : 0 ≤ x) : round x = (⌊x + 1 / 2⌋ : ℚ) := if_pos h

theorem round_of_neg {x : ℚ} (h : x < 0) : round x = -(⌊-x + 1 / 2⌋ : ℚ) := if_neg (not_le.mpr h)

theorem exists_round_eq (x : ℚ) : ∃ k : ℤ, round x = k := by
  rcases le_or_gt 0 x with h | h
  · exact ⟨_, round_of_nonneg h⟩
  · exact ⟨-⌊-x + 1 / 2⌋, by rw [round_of_neg h]; push_cast; rfl⟩

theorem round_bounds_of_nonneg {x : ℚ} (h : 0 ≤ x) :
    0 ≤ round x ∧ round x - 1 / 2 ≤ x ∧ x < round x + 1 / 2 := by
  rw [round_of_nonneg h]
  have h₀ : (0 : ℤ) ≤ ⌊x + 1 / 2⌋ := Int.floor_nonneg.mpr (by linarith)
  have h₁ := Int.floor_le (x + 1 / 2)
  have h₂ := Int.lt_floor_add_one (x + 1 / 2)
  exact ⟨by exact_mod_cast h₀, by linarith, by linarith⟩

theorem round_bounds_of_neg {x : ℚ} (h : x < 0) :
    round x ≤ 0 ∧ round x - 1 / 2 < x ∧ x ≤ round x + 1 / 2 := by
  rw [round_of_neg h]
  have h₀ : (0 : ℤ) ≤ ⌊-x + 1 / 2⌋ := Int.floor_nonneg.mpr (by linarith)
  have h₁ := Int.floor_le (-x + 1 / 2)
  have h₂ := Int.lt_floor_add_one (-x + 1 / 2)
  have h₃ : (0 : ℚ) ≤ (⌊-x + 1 / 2⌋ : ℚ) := by exact_mod_cast h₀
  exact ⟨by linarith, by linarith, by linarith⟩

theorem round_within (x : ℚ) : round x - 1 / 2 ≤ x ∧ x ≤ round x + 1 / 2 := by
  rcases le_or_gt 0 x with h | h
  · obtain ⟨_, h₁, h₂⟩ := round_bounds_of_nonneg h
    exact ⟨h₁, h₂.le⟩
  · obtain ⟨_, h₁, h₂⟩ := round_bounds_of_neg h
    exact ⟨h₁.le, h₂⟩

theorem round_mono {x y : ℚ} (h : x ≤ y) : round x ≤ round y := by
  rcases le_or_gt 0 x with hx | hx
  · rw [round_of_nonneg hx, round_of_nonneg (hx.trans h)]
    exact_mod_cast Int.floor_le_floor (by linarith)
  · rcases le_or_gt 0 y with hy | hy
    · exact (round_bounds_of_neg hx).1.trans (round_bounds_of_nonneg hy).1
    · rw [round_of_neg hx, round_of_neg hy, neg_le_neg_iff]
      exact_mod_cast Int.floor_le_floor (by linarith)

theorem round_neg (x : ℚ) : round (-x) = -round x := by
  rcases lt_trichotomy x 0 with hx | rfl | hx
  · rw [round_of_nonneg (by linarith), round_of_neg hx, neg_neg]
  · norm_num [round_of_nonneg]
  · rw [round_of_neg (by linarith), round_of_nonneg hx.le, neg_neg]

/-- From zero on the rounded number is at most one half above its argument.  So the integers above
it are farther; those below it are farther or at the other end of a tie. -/
private theorem round_nearer_of_nonneg {x : ℚ} (hx : 0 ≤ x) {k j : ℤ} (hk : round x = k)
    (hj : j ≠ k) :
    |x - k| < |x - j| ∨ |x - k| = |x - j| ∧ |(j : ℚ)| < |(k : ℚ)| := by
  obtain ⟨h₀, h₁, h₂⟩ := round_bounds_of_nonneg hx
  rw [hk] at h₀ h₁ h₂
  rcases lt_or_gt_of_ne hj with hlt | hgt
  · have hstep : (j : ℚ) + 1 ≤ k := by exact_mod_cast hlt
    rw [abs_of_nonneg (by linarith : 0 ≤ x - j)]
    rcases le_or_gt (k : ℚ) x with hkx | hkx
    · left
      rw [abs_of_nonneg (by linarith)]
      linarith
    · rw [abs_of_neg (by linarith)]
      rcases lt_or_ge (-(x - k)) (x - j) with hnear | hnear
      · exact .inl hnear
      · have hjk : (j : ℚ) = k - 1 := by linarith
        have hpos : (0 : ℤ) < k := by
          have : (0 : ℚ) < k := by linarith
          exact_mod_cast this
        have hone : (1 : ℚ) ≤ k := by exact_mod_cast hpos
        refine .inr ⟨by linarith, ?_⟩
        rw [hjk, abs_of_nonneg (by linarith), abs_of_nonneg h₀]
        linarith
  · have hstep : (k : ℚ) + 1 ≤ j := by exact_mod_cast hgt
    left
    rw [abs_of_neg (by linarith : x - j < 0), abs_lt]
    constructor <;> linarith

/-- Every integer other than the rounded number is farther, or as far and of smaller magnitude.  Below
zero this is the case above zero reflected in the origin. -/
theorem round_nearer {x : ℚ} {k j : ℤ} (hk : round x = k) (hj : j ≠ k) :
    |x - k| < |x - j| ∨ |x - k| = |x - j| ∧ |(j : ℚ)| < |(k : ℚ)| := by
  rcases le_or_gt 0 x with hx | hx
  · exact round_nearer_of_nonneg hx hk hj
  · have hdist : ∀ i : ℤ, |-x - ((-i : ℤ) : ℚ)| = |x - i| := by
      intro i
      rw [← abs_neg]
      congr 1
      push_cast
      ring
    have hmag : ∀ i : ℤ, |((-i : ℤ) : ℚ)| = |(i : ℚ)| := by
      intro i
      push_cast
      exact abs_neg _
    have hneg : round (-x) = ((-k : ℤ) : ℚ) := by
      rw [round_neg, hk]
      push_cast
      rfl
    have := round_nearer_of_nonneg (by linarith) hneg (j := -j) fun h => hj (neg_injective h)
    rwa [hdist, hdist, hmag, hmag] at this

/-! ## Clamping -/

variable {low high : ℚ}

theorem nearestIn_eq (h : low ≤ high) (x : ℚ) : nearestIn low high x = max low (min high x) := by
  unfold nearestIn
  split
  · next hl => exact (max_eq_left ((min_le_right high x).trans hl.le)).symm
  · next hl =>
    split
    · next hh => rw [min_eq_left hh.le, max_eq_right h]
    · next hh => rw [min_eq_right (le_of_not_gt hh), max_eq_right (le_of_not_gt hl)]

theorem nearestIn_mono (h : low ≤ high) {x y : ℚ} (hxy : x ≤ y) :
    nearestIn low high x ≤ nearestIn low high y := by
  rw [nearestIn_eq h, nearestIn_eq h]
  exact max_le_max_left _ (min_le_min_left _ hxy)

theorem clamp_eq (h : low ≤ high) (x : ℚ) : clamp low high x = .ok (nearestIn low high x) :=
  if_pos h

end QuantEnclosure.Scalar
