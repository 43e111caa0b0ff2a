import QuantEnclosure.Proofs.Format.Projection

/-!
The range of the quantization error over an interval, in exact arithmetic.  A number within the
format moves by at most half a step; a number beyond an end of the format moves to that end
(`rounded_of_greatest_le`, `rounded_of_le_least`), and only then the range is wider than a step.
-/

namespace QuantEnclosure.Format

variable {f : Format}

/-! ## Beyond the ends of the format -/

theorem greatest_mem_grid (f : Format) : f.greatest * f.gap ∈ f.grid :=
  ⟨f.greatest, by exact_mod_cast f.least_le_greatest, le_rfl, rfl⟩

theorem least_mem_grid (f : Format) : f.least * f.gap ∈ f.grid :=
  ⟨f.least, le_rfl, by exact_mod_cast f.least_le_greatest, rfl⟩

/-- Every rounded number lies between the ends of the format. -/
theorem rounded_within (f : Format) (x : ℚ) :
    f.least * f.gap ≤ f.rounded x ∧ f.rounded x ≤ f.greatest * f.gap := by
  obtain ⟨k, hl, hg, hk⟩ := (f.nearest_rounded x).mem
  have hl : (f.least : ℚ) ≤ k := by exact_mod_cast hl
  have hg : (k : ℚ) ≤ f.greatest := by exact_mod_cast hg
  rw [hk]
  exact ⟨mul_le_mul_of_nonneg_right hl f.gap_pos.le, mul_le_mul_of_nonneg_right hg f.gap_pos.le⟩

theorem rounded_of_greatest_le {x : ℚ} (h : f.greatest * f.gap ≤ x) :
    f.rounded x = f.greatest * f.gap := by
  apply le_antisymm (f.rounded_within x).2
  calc f.greatest * f.gap
    _ = f.rounded (f.greatest * f.gap) := (rounded_of_mem_grid f.greatest_mem_grid).symm
    _ ≤ f.rounded x := f.rounded_mono h

theorem rounded_of_le_least {x : ℚ} (h : x ≤ f.least * f.gap) :
    f.rounded x = f.least * f.gap := by
  apply le_antisymm _ (f.rounded_within x).1
  calc f.rounded x
    _ ≤ f.rounded (f.least * f.gap) := f.rounded_mono h
    _ = f.least * f.gap := rounded_of_mem_grid f.least_mem_grid

/-! ## The range of the error -/

theorem errorBand_lower_of_le {b : Bound ℚ} (h : b.upper ≤ f.greatest * f.gap) :
    (f.errorBand b).lower = -(1 / 2 * f.gap) := by
  rw [errorBand, min_eq_right (sub_nonneg.mpr h), add_zero]

theorem errorBand_upper_of_le {b : Bound ℚ} (h : f.least * f.gap ≤ b.lower) :
    (f.errorBand b).upper = 1 / 2 * f.gap := by
  rw [errorBand, max_eq_right (sub_nonpos.mpr h), add_zero]

theorem errorBand_lower_of_ge {b : Bound ℚ} (h : f.greatest * f.gap ≤ b.upper) :
    (f.errorBand b).lower = f.rounded b.upper - b.upper - 1 / 2 * f.gap := by
  rw [errorBand, min_eq_left (sub_nonpos.mpr h), rounded_of_greatest_le h]
  ring

theorem errorBand_upper_of_ge {b : Bound ℚ} (h : b.lower ≤ f.least * f.gap) :
    (f.errorBand b).upper = f.rounded b.lower - b.lower + 1 / 2 * f.gap := by
  rw [errorBand, max_eq_left (sub_nonneg.mpr h), rounded_of_le_least h]
  ring

/-- In a valid format the range of the error over an interval is always found, and it holds the
error of every number of the interval, wherever the interval lies.  It is not wider than it has to
be: on each side it reaches half a step, or half a step beyond the error at the end of the interval
that lies beyond the format. -/
theorem errorRange_encloses (f : Format) (hf : f.validate = .ok ()) (b : Bound ℚ) :
    ∃ range rep s, f.errorRange b = .ok range ∧ f.representable = .ok rep ∧ f.step = .ok s ∧
      (∀ x, b.contains x = true →
        ∃ y, f.quantize x = .ok y ∧ range.contains (y - x) = true) ∧
      (b.upper ≤ rep.upper → range.lower = -(1 / 2 * s)) ∧
      (rep.lower ≤ b.lower → range.upper = 1 / 2 * s) ∧
      (rep.upper ≤ b.upper →
        ∃ y, f.quantize b.upper = .ok y ∧ range.lower = y - b.upper - 1 / 2 * s) ∧
      (b.lower ≤ rep.lower →
        ∃ y, f.quantize b.lower = .ok y ∧ range.upper = y - b.lower + 1 / 2 * s) := by
  have hv := validateAs_eq_ok.mp hf
  refine ⟨_, _, f.gap, errorRange_eq hv b, representable_eq hv, step_eq hv, fun x hx => ?_,
    errorBand_lower_of_le, errorBand_upper_of_le, fun h => ?_, fun h => ?_⟩
  · refine ⟨_, quantize_eq hv x, Bound.contains_iff.mpr ?_⟩
    exact f.rounded_sub_mem (Bound.contains_iff.mp hx)
  · exact ⟨_, quantize_eq hv b.upper, errorBand_lower_of_ge h⟩
  · exact ⟨_, quantize_eq hv b.lower, errorBand_upper_of_ge h⟩

/-- One bit represents `-1` and `0` only, and the interval passes both of them. -/
theorem oneBit_errorRange_encloses :
    (⟨.symmetric, 1, 0⟩ : Format).validate = .ok () ∧
      ∃ range, (⟨.symmetric, 1, 0⟩ : Format).errorRange (⟨-2, 3 / 2⟩ : Bound ℚ) = .ok range ∧
        range = ⟨-2, 3 / 2⟩ ∧
        (∃ y, (⟨.symmetric, 1, 0⟩ : Format).quantize (2 / 5 : ℚ) = .ok y ∧
          range.contains (y - 2 / 5) = true) ∧
        ∃ y, (⟨.symmetric, 1, 0⟩ : Format).quantize (3 / 2 : ℚ) = .ok y ∧
          range.lower = y - 3 / 2 - 1 / 2 * 1 := by
  obtain ⟨range, rep, s, hrange, hrep, hs, hmem, _, _, hupper, _⟩ :=
    errorRange_encloses ⟨.symmetric, 1, 0⟩ rfl ⟨-2, 3 / 2⟩
  have hvalue : (⟨.symmetric, 1, 0⟩ : Format).errorRange (⟨-2, 3 / 2⟩ : Bound ℚ) =
      .ok ⟨-2, 3 / 2⟩ := by decide +kernel
  have hends : (⟨.symmetric, 1, 0⟩ : Format).representable = .ok (⟨-1, 0⟩ : Bound ℚ) := by
    decide +kernel
  have hstep : (⟨.symmetric, 1, 0⟩ : Format).step = .ok (1 : ℚ) := by decide +kernel
  cases hrange.symm.trans hvalue
  cases hrep.symm.trans hends
  cases hs.symm.trans hstep
  exact ⟨rfl, _, hrange, rfl, hmem _ (by decide +kernel), hupper (by decide +kernel)⟩

end QuantEnclosure.Format
