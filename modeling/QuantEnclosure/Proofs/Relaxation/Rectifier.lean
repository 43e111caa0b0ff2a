import QuantEnclosure.Relaxation
import QuantEnclosure.Proofs.Bound
import Mathlib.Tactic.Ring

/-!
What it means that a relaxation is sound at a point, and the soundness of the relaxation of the
rectifier over an interval.
-/

namespace QuantEnclosure

open Scalar

namespace Relaxation

def Holds (r : Relaxation ℚ) (x y : ℚ) : Prop :=
  r.slope * x + r.offset - r.error ≤ y ∧ y ≤ r.slope * x + r.offset + r.error

/-- The share of the error that takes the line at `x` to `y`. -/
def share (r : Relaxation ℚ) (x y : ℚ) : ℚ := (y - (r.slope * x + r.offset)) / r.error

/-- A number in the band is the line plus a share of the error. -/
theorem Holds.eq_line_add {r : Relaxation ℚ} {x y : ℚ} (h : r.Holds x y) :
    y = r.slope * x + r.offset + r.error * r.share x y := by
  obtain ⟨h₁, h₂⟩ := h
  rcases eq_or_ne r.error 0 with he | he
  · rw [he] at h₁ h₂ ⊢
    linarith
  · rw [share, mul_div_cancel₀ _ he]
    ring

theorem Holds.share_within {r : Relaxation ℚ} {x y : ℚ} (h : r.Holds x y) :
    -1 ≤ r.share x y ∧ r.share x y ≤ 1 := by
  obtain ⟨h₁, h₂⟩ := h
  have he : 0 ≤ r.error := by linarith
  rcases he.eq_or_lt with he | he
  · simp [share, ← he]
  · rw [share, le_div_iff₀ he, div_le_iff₀ he]
    exact ⟨by linarith, by linarith⟩

end Relaxation

theorem rectify_eq_max (x : ℚ) : rectify x = max x 0 := greater_eq_max x 0

/-- The rectifier of a positive multiple. -/
theorem rectify_mul {f : ℚ} (hf : 0 ≤ f) (x : ℚ) : rectify (f * x) = f * rectify x := by
  rw [rectify_eq_max, rectify_eq_max, mul_max_of_nonneg x 0 hf, mul_zero]

/-- The rectifier lies between its two arms and below the chord from `(l, 0)` to `(u, u)`. -/
theorem rectify_le_chord {l u x : ℚ} (hl : l < 0) (hu : 0 < u) (hlx : l ≤ x) (hxu : x ≤ u) :
    u / (u - l) * x ≤ rectify x ∧ rectify x ≤ u / (u - l) * x + -u * l / (u - l) := by
  have hw : 0 < u - l := by linarith
  have hchord : u / (u - l) * x + -u * l / (u - l) = u * (x - l) / (u - l) := by ring
  rw [rectify_eq_max, hchord, le_max_iff, max_le_iff, le_div_iff₀ hw, le_div_iff₀ hw]
  refine ⟨?_, ?_, ?_⟩
  · rcases le_total 0 x with hx | hx
    · left
      have : u / (u - l) ≤ 1 := (div_le_one hw).mpr (by linarith)
      exact mul_le_of_le_one_left hx this
    · right
      exact mul_nonpos_of_nonneg_of_nonpos (div_nonneg hu.le hw.le) hx
  · nlinarith
  · rw [zero_mul]
    exact mul_nonneg hu.le (by linarith)

theorem reluRelaxation_holds {b : Bound ℚ} {x : ℚ} (hx : x ∈ b) :
    (reluRelaxation b).1.Holds x (rectify x) := by
  obtain ⟨hl, hu⟩ := hx
  unfold reluRelaxation
  dsimp only
  split
  · next h =>
    have : rectify x = 0 := by rw [rectify_eq_max, max_eq_right (hu.trans h)]
    simp [Relaxation.Holds, Relaxation.constant, this]
  · next h =>
    split
    · next hl' =>
      have : rectify x = x := by rw [rectify_eq_max, max_eq_left (hl'.trans hl)]
      simp [Relaxation.Holds, this]
    · next hl' =>
      obtain ⟨h₁, h₂⟩ := rectify_le_chord (not_le.mp hl') (not_le.mp h) hl hu
      have hhalf : -b.upper * b.lower / (b.upper - b.lower) =
          2 * (-b.upper * b.lower / (2 * (b.upper - b.lower))) := by
        rw [← mul_div_assoc, mul_div_mul_left _ _ two_ne_zero]
      rw [hhalf] at h₂
      simp only [Relaxation.Holds, two_eq]
      exact ⟨by linarith, by linarith⟩

/-- A neuron counts as unstable exactly if its interval reaches below and above zero. -/
theorem reluRelaxation_unstable_iff {b : Bound ℚ} :
    (reluRelaxation b).2 = .unstable ↔ b.lower < 0 ∧ 0 < b.upper := by
  unfold reluRelaxation
  dsimp only
  split
  · next h => simp [not_lt.mpr h]
  · next h =>
    split
    · next hl => simp [not_lt.mpr hl]
    · next hl => simp [not_le.mp hl, not_le.mp h]

end QuantEnclosure
