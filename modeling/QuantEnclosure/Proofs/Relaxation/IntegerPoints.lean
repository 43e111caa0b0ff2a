import QuantEnclosure.Proofs.Relaxation.ClosedForm

/-!
The closed form at the integers of an interval.  Without any widening its band holds the staircase
at every integer (`FormulaCase.holds_int`), whether the slope is above or below one and wherever
the ends of the interval lie between integers.
-/

namespace QuantEnclosure

open Scalar

/-! ## The staircase at integers -/

/-- At an integer the staircase is the integer, kept between zero and the ceiling. -/
theorem stair_int_cases {c : ℤ} (hc : 0 ≤ c) (z : ℤ) :
    (z ≤ 0 ∧ stair c z = 0) ∨ (0 < z ∧ z < c ∧ stair c z = z) ∨ (c ≤ z ∧ stair c z = c) := by
  rcases le_or_gt z 0 with h₀ | h₀
  · exact .inl ⟨h₀, stair_of_nonpos hc (by exact_mod_cast h₀)⟩
  · rcases lt_or_ge z c with h | h
    · have hs : stair c z = z := stair_eq h₀.le h.le (fun _ => by linarith) fun _ => by linarith
      exact .inr (.inl ⟨h₀, h, hs⟩)
    · exact .inr (.inr ⟨h, stair_of_ceiling_le hc (by exact_mod_cast h)⟩)

/-! ## Intervals that span an end of the range -/

/-- Comparison with a multiple of the slope `n / d`. -/
theorem le_slope_mul {a d n p q : ℚ} (hd : 0 < d) (ha : a * d = n) (h : p * d ≤ n * q) :
    p ≤ a * q := by
  subst ha
  exact le_of_mul_le_mul_right (by linarith) hd

theorem slope_mul_le {a d n p q : ℚ} (hd : 0 < d) (ha : a * d = n) (h : n * q ≤ p * d) :
    a * q ≤ p := by
  subst ha
  exact le_of_mul_le_mul_right (by linarith) hd

section

variable {b : Bound ℚ} {c k z : ℤ} {a : ℚ}

/-- Up to zero the deviation falls from its value at the lower end, and from the ceiling on it
falls to its value at the upper end.  In between it is `(1 - a) z`, whose sign depends on the
slope. -/
theorem spansBoth_holds (hc : 1 ≤ c) (ha : 0 ≤ a) (hl : b.lower ≤ 0) (hu : (c : ℚ) ≤ b.upper)
    (hz : (z : ℚ) ∈ b) :
    (Relaxation.ofIntercepts a (max (-a * b.lower) (c - a * (c - 1 / 2)))
      (min (-(1 / 2) * a) (c - a * b.upper))).Holds z (stair c z) := by
  obtain ⟨hzl, hzu⟩ := hz
  have hlower := mul_le_mul_of_nonneg_left hzl ha
  have hupper := mul_le_mul_of_nonneg_left hzu ha
  have hceiling := mul_le_mul_of_nonneg_left hu ha
  have hbottom := mul_nonpos_of_nonneg_of_nonpos ha hl
  rw [Relaxation.ofIntercepts_holds_iff, min_le_iff, le_max_iff]
  rcases stair_int_cases (by omega : 0 ≤ c) z with ⟨hz, hs⟩ | ⟨hz₀, hzc, hs⟩ | ⟨hz, hs⟩
  · have hz : a * z ≤ 0 := mul_nonpos_of_nonneg_of_nonpos ha (by exact_mod_cast hz)
    rw [hs]
    exact ⟨.inl (by linarith), .inl (by linarith)⟩
  · have hz₀ : (0 : ℚ) ≤ z := by exact_mod_cast hz₀.le
    have hzc : (z : ℚ) ≤ c := by exact_mod_cast hzc.le
    rw [hs]
    rcases le_total a 1 with h | h
    · have h₁ := mul_nonneg (sub_nonneg.mpr h) hz₀
      have h₂ := mul_le_mul_of_nonneg_left hzc (sub_nonneg.mpr h)
      exact ⟨.inl (by linarith), .inr (by linarith)⟩
    · have h₁ := mul_nonneg (sub_nonneg.mpr h) hz₀
      have h₂ := mul_le_mul_of_nonneg_left hzc (sub_nonneg.mpr h)
      exact ⟨.inr (by linarith), .inl (by linarith)⟩
  · have hz := mul_le_mul_of_nonneg_left (show (c : ℚ) ≤ z by exact_mod_cast hz) ha
    rw [hs]
    exact ⟨.inr (by linarith), .inr (by linarith)⟩

/-- The top line passes through `(l, 0)` and `(k - 1/2, k)`, the bottom line through `(1/2, 0)`.
An integer of the interval is at most `k`, although the interval may end above `k`. -/
theorem spansLower_holds (hc : 1 ≤ c) (hl : b.lower ≤ 0) (hu : b.upper < c) (hk : 1 ≤ k)
    (hr : b.upper < k + 1 / 2) (ha : 0 < a) (hslope : a * (k - b.lower - 1 / 2) = k)
    (hz : (z : ℚ) ∈ b) :
    (Relaxation.ofIntercepts a (-a * b.lower) (-(1 / 2) * a)).Holds z (stair c z) := by
  obtain ⟨hzl, hzu⟩ := hz
  rw [Relaxation.ofIntercepts_holds_iff]
  rcases stair_int_cases (by omega : 0 ≤ c) z with ⟨hz, hs⟩ | ⟨hz₀, _, hs⟩ | ⟨hz, _⟩
  · have hz : a * z ≤ 0 := mul_nonpos_of_nonneg_of_nonpos ha.le (by exact_mod_cast hz)
    have hlower := mul_le_mul_of_nonneg_left hzl ha.le
    rw [hs]
    exact ⟨by linarith, by linarith⟩
  · have hzk : (z : ℚ) ≤ k := by
      have h : z < k + 1 := by
        have : (z : ℚ) < k + 1 := by linarith
        exact_mod_cast this
      exact_mod_cast Int.lt_add_one_iff.mp h
    have hz₀ : (0 : ℚ) < z := by exact_mod_cast hz₀
    have hk : (1 : ℚ) ≤ k := by exact_mod_cast hk
    have hd : 0 < (k : ℚ) - b.lower - 1 / 2 := by linarith
    have h₁ := mul_nonneg (neg_nonneg.mpr hl) hz₀.le
    have h₂ := mul_nonneg (neg_nonneg.mpr hl) (sub_nonneg.mpr hzk)
    have htop : (z : ℚ) ≤ a * (z - b.lower) := le_slope_mul hd hslope (by linarith)
    have hbottom : a * (z - 1 / 2) ≤ z := slope_mul_le hd hslope (by linarith)
    rw [hs]
    exact ⟨by linarith, by linarith⟩
  · have hz : (c : ℚ) ≤ z := by exact_mod_cast hz
    linarith

/-- The bottom line passes through `(u, c)` and `(k + 1/2, k)`, the top line through
`(c - 1/2, c)`.  An integer of the interval is at least `k`, although the interval may begin below
`k`. -/
theorem spansUpper_holds (hc : 1 ≤ c) (hl : 0 < b.lower) (hu : (c : ℚ) < b.upper) (hk : k < c)
    (hr : (k : ℚ) - 1 / 2 ≤ b.lower) (ha : 0 < a) (hslope : a * (b.upper - k - 1 / 2) = c - k)
    (hz : (z : ℚ) ∈ b) :
    (Relaxation.ofIntercepts a (c - a * (c - 1 / 2)) (c - a * b.upper)).Holds z (stair c z) := by
  obtain ⟨hzl, hzu⟩ := hz
  rw [Relaxation.ofIntercepts_holds_iff]
  rcases stair_int_cases (by omega : 0 ≤ c) z with ⟨hz, _⟩ | ⟨_, hzc, hs⟩ | ⟨hz, hs⟩
  · have hz : (z : ℚ) ≤ 0 := by exact_mod_cast hz
    linarith
  · have hkz : (k : ℚ) ≤ z := by
      have h : k < z + 1 := by
        have : (k : ℚ) < z + 1 := by linarith
        exact_mod_cast this
      exact_mod_cast Int.lt_add_one_iff.mp h
    have hzc : (z : ℚ) < c := by exact_mod_cast hzc
    have hk : (k : ℚ) + 1 ≤ c := by exact_mod_cast hk
    have hd : 0 < b.upper - k - 1 / 2 := by linarith
    have h₁ := mul_nonneg (sub_nonneg.mpr hu.le) (sub_nonneg.mpr hzc.le)
    have h₂ := mul_nonneg (sub_nonneg.mpr hu.le) (sub_nonneg.mpr hkz)
    have htop : a * (c - z - 1 / 2) ≤ c - z := slope_mul_le hd hslope (by linarith)
    have hbottom : c - z ≤ a * (b.upper - z) := le_slope_mul hd hslope (by linarith)
    rw [hs]
    exact ⟨by linarith, by linarith⟩
  · have hz := mul_le_mul_of_nonneg_left (show (c : ℚ) ≤ z by exact_mod_cast hz) ha.le
    have hupper := mul_le_mul_of_nonneg_left hzu ha.le
    rw [hs]
    exact ⟨by linarith, by linarith⟩

/-- In every case the band of the closed form holds the staircase at the integers of the
interval. -/
theorem FormulaCase.holds_int {r : Relaxation ℚ} (h : FormulaCase b c r) (hc : 1 ≤ c)
    (hz : (z : ℚ) ∈ b) : r.Holds z (stair c z) := by
  have hc₀ : 0 ≤ c := by omega
  cases h with
  | bottom hu =>
    have hz₀ : z < 1 := by
      have : (z : ℚ) < 1 := by linarith [hz.2]
      exact_mod_cast this
    have hs := stair_of_nonpos hc₀ (x := z) (by exact_mod_cast (by omega : z ≤ 0))
    simp [Relaxation.Holds, Relaxation.constant, hs]
  | top hl =>
    have hzc : c < z + 1 := by
      have : (c : ℚ) < z + 1 := by linarith [hz.1]
      exact_mod_cast this
    have hs := stair_of_ceiling_le hc₀ (x := z) (by exact_mod_cast (by omega : c ≤ z))
    simp [Relaxation.Holds, Relaxation.constant, hs]
  | interior hl hu =>
    have hs : stair c z = z := by
      apply stair_eq
      · exact_mod_cast hl.trans hz.1
      · exact_mod_cast hz.2.trans hu
      · intro _
        linarith
      · intro _
        linarith
    rw [hs]
    constructor <;> linarith
  | spansBoth ha hl hu => exact spansBoth_holds hc ha hl hu hz
  | spansLower hl hu hk hr ha hslope => exact spansLower_holds hc hl hu hk hr ha hslope hz
  | spansUpper hl hu hk hr ha hslope => exact spansUpper_holds hc hl hu hk hr ha hslope hz

end

/-! ## Soundness at integers -/

/-- With an integer ceiling from one on, the closed form divides by positive numbers only: those
that it lists are positive, and quotients by other numbers do not change its value.  Its error is
not negative, and its band holds the staircase at every integer of the interval. -/
theorem closedForm_encloses_integers (b : Bound ℚ) (c : ℤ) (hc : 1 ≤ c) :
    (∀ d ∈ roundClampDivisors (c : ℚ) b, 0 < d) ∧
      (∀ quotient : ℚ → ℚ → ℚ, (∀ n d, 0 < d → quotient n d = n / d) →
        @roundClampFormula ℚ (dividingBy quotient) b c = roundClampFormula b (c : ℚ)) ∧
      0 ≤ (roundClampFormula b (c : ℚ)).1.error ∧
      ∀ z : ℤ, b.lower ≤ z → z ≤ b.upper →
        ∃ y, roundClamp (c : ℚ) (z : ℚ) = .ok y ∧ (roundClampFormula b (c : ℚ)).1.Holds z y := by
  have hpos := roundClampDivisors_pos hc b
  refine ⟨hpos, fun quotient hq => ?_, roundClampFormula_error_nonneg hc, fun z hl hu => ?_⟩
  · exact roundClampFormula_dividingBy (hq 1 2 two_pos) fun n d hd => hq n d (hpos d hd)
  · have hc₀ : (0 : ℚ) ≤ c := by exact_mod_cast (by omega : (0 : ℤ) ≤ c)
    exact ⟨_, roundClamp_eq hc₀ z, (roundClampFormula_case hc).holds_int hc ⟨hl, hu⟩⟩

/-- A slope above one, over an interval that ends between two integers: the band holds the
staircase at `1`, but not at the end of the interval. -/
theorem steepInterval_encloses_one :
    ∃ r : Relaxation ℚ, (roundClampFormula ⟨-1 / 10, 7 / 5⟩ 15).1 = r ∧
      r = ⟨5 / 3, -1 / 3, 1 / 2⟩ ∧ 0 ≤ r.error ∧
      (∃ y, roundClamp 15 1 = .ok y ∧ r.Holds 1 y) ∧
      ∃ y, roundClamp 15 (7 / 5) = .ok y ∧ ¬r.Holds (7 / 5) y := by
  have hr : (roundClampFormula (⟨-1 / 10, 7 / 5⟩ : Bound ℚ) 15).1 = ⟨5 / 3, -1 / 3, 1 / 2⟩ := by
    decide +kernel
  obtain ⟨_, _, herror, hint⟩ := closedForm_encloses_integers ⟨-1 / 10, 7 / 5⟩ 15 (by decide)
  refine ⟨_, rfl, hr, herror, hint 1 (by norm_num) (by norm_num), 1, by decide +kernel, ?_⟩
  rw [hr]
  norm_num [Relaxation.Holds]

end QuantEnclosure
