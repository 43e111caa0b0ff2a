import Mathlib
import QuantEnclosure.Proofs.Relaxation.RealPoints

/-!
The relaxation of the rectifier is the narrowest one.  A band that holds the rectifier at both ends
of an interval lies above the chord between them, and at zero it has to come down to zero; so its
error is at least half the height of the chord over zero (`half_chord_le`).  The relaxation has just
this error.  Three points of the interval decide, so the bound holds for every band of rational or
of real numbers that is sound on the interval (`reluRelaxation_error_le`).
-/

namespace QuantEnclosure

open Scalar

variable {b : Bound ℚ}

/-- The band holds the rectifier at the real numbers of the interval as well, because the rectifier
is monotone. -/
theorem reluRelaxation_holdsReal {x : ℝ} (hl : b.lower ≤ x) (hu : x ≤ b.upper) :
    (reluRelaxation b).1.HoldsReal x (max x 0) := by
  have hmono : Monotone fun y : ℝ => max y 0 := monotone_id.max monotone_const
  have hrational : ∀ y : ℚ, b.lower ≤ y → y ≤ b.upper →
      (reluRelaxation b).1.HoldsReal y (max (y : ℝ) 0) := by
    intro y hy hy'
    have := reluRelaxation_holds (b := b) ⟨hy, hy'⟩
    rw [rectify_eq_max] at this
    unfold Relaxation.Holds at this
    unfold Relaxation.HoldsReal
    exact_mod_cast this
  generalize (reluRelaxation b).1 = r at hrational ⊢
  constructor
  · have := line_le_of_monotone hmono (p := r.slope) (q := r.offset - r.error)
      (fun y hy hy' => by linarith [(hrational y hy hy').1]) hl hu
    linarith
  · have := le_line_of_monotone hmono (p := r.slope) (q := r.offset + r.error)
      (fun y hy hy' => by linarith [(hrational y hy hy').2]) hl hu
    linarith

/-! ## Every sound band -/

section

variable {K : Type} [Field K] [LinearOrder K] [IsStrictOrderedRing K]

/-- A band that holds the rectifier at `l < 0`, at zero and at `u > 0` has at least half the height
of the chord over zero as its error.  That height comes from the two ends with the weights `u` and
`-l`. -/
theorem half_chord_le {l u p q e : K} (hl : l < 0) (hu : 0 < u) (hlower : 0 ≤ p * l + q + e)
    (hzero : q - e ≤ 0) (hupper : u ≤ p * u + q + e) : -u * l / (2 * (u - l)) ≤ e := by
  have hw : 0 < u - l := by linarith
  have h₁ := mul_le_mul_of_nonneg_left hlower hu.le
  have h₂ := mul_le_mul_of_nonneg_left hupper (neg_nonneg.mpr hl.le)
  have h₃ := mul_le_mul_of_nonneg_left hzero hw.le
  rw [div_le_iff₀ (by linarith)]
  linarith

/-- Every band that holds the rectifier at the rational numbers of the interval has at least the
error of the relaxation. -/
theorem reluRelaxation_error_le (hb : b.lower ≤ b.upper) {p q e : K}
    (h : ∀ x ∈ b, p * (x : K) + q - e ≤ max (x : K) 0 ∧ max (x : K) 0 ≤ p * (x : K) + q + e) :
    ((reluRelaxation b).1.error : K) ≤ e := by
  have hlower := h b.lower ⟨le_rfl, hb⟩
  have hupper := h b.upper ⟨hb, le_rfl⟩
  have hnonneg : 0 ≤ e := by linarith
  unfold reluRelaxation
  dsimp only
  split
  · simpa [Relaxation.constant] using hnonneg
  · next hu =>
    split
    · simpa using hnonneg
    · next hl =>
      have hl := not_le.mp hl
      have hu := not_le.mp hu
      have hzero := h 0 ⟨hl.le, hu.le⟩
      have hle : (b.lower : K) < 0 := by exact_mod_cast hl
      have hue : (0 : K) < b.upper := by exact_mod_cast hu
      rw [max_eq_right hle.le] at hlower
      rw [max_eq_left hue.le] at hupper
      simp only [Rat.cast_zero, mul_zero, zero_add, max_self] at hzero
      have := half_chord_le hle hue hlower.2 hzero.1 hupper.2
      simpa using this

end

/-! ## Soundness and optimality -/

/-- Over every interval the relaxation holds the rectifier, and no band that does so has a smaller
error.  This is said for rational numbers and for real ones. -/
theorem reluRelaxation_narrowest (b : Bound ℚ) (hb : b.lower ≤ b.upper) :
    0 ≤ (reluRelaxation b).1.error ∧
      (∀ x ∈ b, (reluRelaxation b).1.Holds x (max x 0)) ∧
      (∀ r : Relaxation ℚ, (∀ x ∈ b, r.Holds x (max x 0)) →
        (reluRelaxation b).1.error ≤ r.error) ∧
      (∀ x : ℝ, b.lower ≤ x → x ≤ b.upper → (reluRelaxation b).1.HoldsReal x (max x 0)) ∧
      ∀ p q e : ℝ,
        (∀ x : ℝ, b.lower ≤ x → x ≤ b.upper →
          p * x + q - e ≤ max x 0 ∧ max x 0 ≤ p * x + q + e) →
        ((reluRelaxation b).1.error : ℝ) ≤ e := by
  have hholds : ∀ x ∈ b, (reluRelaxation b).1.Holds x (max x 0) := by
    intro x hx
    rw [← rectify_eq_max]
    exact reluRelaxation_holds hx
  refine ⟨?_, hholds, fun r hr => ?_, fun x => reluRelaxation_holdsReal, fun p q e h => ?_⟩
  · obtain ⟨h₁, h₂⟩ := hholds b.lower ⟨le_rfl, hb⟩
    linarith
  · have hle := reluRelaxation_error_le (K := ℚ) (p := r.slope) (q := r.offset) hb fun x hx => by
      rw [Rat.cast_id]
      exact hr x hx
    exact_mod_cast hle
  · exact reluRelaxation_error_le hb fun x hx =>
      h x (by exact_mod_cast hx.1) (by exact_mod_cast hx.2)

/-- From `-1` to `3` no band has a smaller error than `3/8`, that over the chord with slope
`3/4`. -/
theorem bothSigns_narrowest :
    reluRelaxation (⟨-1, 3⟩ : Bound ℚ) = (⟨3 / 4, 3 / 8, 3 / 8⟩, .unstable) ∧
      ∀ r : Relaxation ℚ, (∀ x ∈ (⟨-1, 3⟩ : Bound ℚ), r.Holds x (max x 0)) →
        3 / 8 ≤ r.error := by
  have hr : reluRelaxation (⟨-1, 3⟩ : Bound ℚ) = (⟨3 / 4, 3 / 8, 3 / 8⟩, .unstable) := by
    decide +kernel
  refine ⟨hr, fun r hold => ?_⟩
  obtain ⟨_, _, hnarrow, _⟩ := reluRelaxation_narrowest ⟨-1, 3⟩ (by decide +kernel)
  rw [hr] at hnarrow
  exact hnarrow r hold

end QuantEnclosure
