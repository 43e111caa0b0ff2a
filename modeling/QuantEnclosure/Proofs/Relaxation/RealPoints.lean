import QuantEnclosure.Proofs.Relaxation.ClosedForm
import Mathlib

/-!
The widened relaxation at the real numbers of an interval.  Everything that is computed is
rational, and the staircase has values at real numbers as well (`realStair`).  It is monotone, so
a band with rational ends that holds it at the rational numbers of an interval holds it at all
real numbers there: between two rational numbers nothing can stick out (`line_le_of_monotone`,
`le_line_of_monotone`).
-/

namespace QuantEnclosure

open Scalar

/-! ## The staircase on the real numbers -/

/-- The nearest integer, a half going away from zero, kept between zero and the ceiling. -/
noncomputable def realStair (ceiling : ℤ) (x : ℝ) : ℤ :=
  max 0 (min ceiling (if 0 ≤ x then ⌊x + 1 / 2⌋ else -⌊-x + 1 / 2⌋))

section

variable {c : ℤ}

/-- Below zero a half may as well go up, because the clamp takes both neighbours to zero. -/
theorem realStair_eq (hc : 0 ≤ c) (x : ℝ) : realStair c x = max 0 (min c ⌊x + 1 / 2⌋) := by
  unfold realStair
  split
  · rfl
  · next hx =>
    have h₁ : 0 ≤ ⌊-x + 1 / 2⌋ := Int.floor_nonneg.mpr (by linarith)
    have h₂ : ⌊x + 1 / 2⌋ < 1 := Int.floor_lt.mpr (by push_cast; linarith)
    omega

theorem realStair_mono (hc : 0 ≤ c) : Monotone (realStair c) := by
  intro x y hxy
  have h : ⌊x + 1 / 2⌋ ≤ ⌊y + 1 / 2⌋ := Int.floor_le_floor (by linarith)
  rw [realStair_eq hc, realStair_eq hc]
  omega

/-- At rational numbers it is the staircase of the analysis. -/
theorem realStair_cast (hc : 0 ≤ c) (x : ℚ) : (realStair c x : ℚ) = stair c x := by
  have hc₀ : (0 : ℚ) ≤ c := by exact_mod_cast hc
  have hfloor : ∀ y : ℚ, ⌊(y : ℝ) + 1 / 2⌋ = ⌊y + 1 / 2⌋ := by
    intro y
    rw [← Rat.floor_cast (α := ℝ) (y + 1 / 2)]
    push_cast
    rfl
  have hneg := hfloor (-x)
  push_cast at hneg
  rw [stair, nearestIn_eq hc₀, realStair, hfloor, hneg]
  rcases le_or_gt 0 x with hx | hx
  · rw [round_of_nonneg hx, if_pos (by exact_mod_cast hx)]
    push_cast
    rfl
  · rw [round_of_neg hx, if_neg (not_le.mpr (by exact_mod_cast hx))]
    push_cast
    rfl

theorem roundClamp_eq_realStair (hc : 0 ≤ c) (x : ℚ) :
    roundClamp (c : ℚ) x = .ok (realStair c x : ℚ) := by
  rw [roundClamp_eq (by exact_mod_cast hc), realStair_cast hc]

end

/-! ## From rational to real numbers -/

/-- A monotone function that is not below a line at the rational numbers of an interval is not
below it at the real numbers.  A falling line is highest at the lower end; under a rising line,
rational numbers just below `x` would show it. -/
theorem line_le_of_monotone {f : ℝ → ℝ} (hf : Monotone f) {l u : ℚ} {p q : ℝ}
    (h : ∀ x : ℚ, l ≤ x → x ≤ u → p * x + q ≤ f x) {x : ℝ} (hl : l ≤ x) (hu : x ≤ u) :
    p * x + q ≤ f x := by
  have hlu : l ≤ u := by exact_mod_cast hl.trans hu
  have hlower : p * l + q ≤ f x := (h l le_rfl hlu).trans (hf hl)
  rcases le_or_gt p 0 with hp | hp
  · have := mul_le_mul_of_nonpos_left hl hp
    linarith
  · have hle : x ≤ (f x - q) / p := by
      apply le_of_forall_rat_lt_imp_le
      intro y hy
      rw [le_div_iff₀ hp]
      rcases le_or_gt l y with hly | hly
      · have hyu : y ≤ u := by exact_mod_cast hy.le.trans hu
        have := (h y hly hyu).trans (hf hy.le)
        linarith
      · have := mul_lt_mul_of_pos_left (show (y : ℝ) < l by exact_mod_cast hly) hp
        linarith
    rw [le_div_iff₀ hp] at hle
    linarith

/-- The same from above, by reflection in the origin. -/
theorem le_line_of_monotone {f : ℝ → ℝ} (hf : Monotone f) {l u : ℚ} {p q : ℝ}
    (h : ∀ x : ℚ, l ≤ x → x ≤ u → f x ≤ p * x + q) {x : ℝ} (hl : l ≤ x) (hu : x ≤ u) :
    f x ≤ p * x + q := by
  have hmono : Monotone fun y => -f (-y) := fun y z hyz => neg_le_neg (hf (neg_le_neg hyz))
  have hrational : ∀ y : ℚ, -u ≤ y → y ≤ -l → p * y + -q ≤ -f (-y) := by
    intro y hy hy'
    have := h (-y) (by linarith) (by linarith)
    push_cast at this
    linarith
  have hneg := line_le_of_monotone hmono hrational (x := -x) (by push_cast; linarith)
    (by push_cast; linarith)
  rw [neg_neg] at hneg
  linarith

section

variable {b : Bound ℚ} {c : ℤ} {x : ℝ}

/-- A band with rational ends that holds the staircase at the rational numbers of an interval
holds it at the real numbers. -/
theorem realStair_mem_band (hc : 0 ≤ c) {slope : ℚ} {range : Bound ℚ}
    (h : ∀ y ∈ b, deviation slope y (stair c y) ∈ range) (hl : b.lower ≤ x) (hu : x ≤ b.upper) :
    slope * x + range.lower ≤ realStair c x ∧ realStair c x ≤ slope * x + range.upper := by
  have hmono : Monotone fun y => (realStair c y : ℝ) := Int.cast_mono.comp (realStair_mono hc)
  have hstair : ∀ y : ℚ, (realStair c y : ℝ) = (stair c y : ℚ) := fun y => by
    exact_mod_cast congrArg (Rat.cast (K := ℝ)) (realStair_cast hc y)
  constructor
  · refine line_le_of_monotone hmono (fun y hy hy' => ?_) hl hu
    have := (h y ⟨hy, hy'⟩).1
    unfold deviation at this
    rw [hstair]
    exact_mod_cast (by linarith : slope * y + range.lower ≤ stair c y)
  · refine le_line_of_monotone hmono (fun y hy hy' => ?_) hl hu
    have := (h y ⟨hy, hy'⟩).2
    unfold deviation at this
    rw [hstair]
    exact_mod_cast (by linarith : stair c y ≤ slope * y + range.upper)

def Relaxation.HoldsReal (r : Relaxation ℚ) (x y : ℝ) : Prop :=
  r.slope * x + r.offset - r.error ≤ y ∧ y ≤ r.slope * x + r.offset + r.error

theorem Relaxation.holdsReal_of_holds {r : Relaxation ℚ} (hc : 0 ≤ c)
    (h : ∀ y ∈ b, r.Holds y (stair c y)) (hl : b.lower ≤ x) (hu : x ≤ b.upper) :
    r.HoldsReal x (realStair c x) := by
  obtain ⟨h₁, h₂⟩ := realStair_mem_band hc (fun y hy => holds_iff.mp (h y hy)) hl hu
  simp only [intercepts] at h₁ h₂
  push_cast at h₁ h₂
  exact ⟨by linarith, by linarith⟩

end

/-! ## Soundness at real numbers -/

/-- With an integer ceiling from one on, the relaxation of the staircase exists for every
interval; no check of a radius or of the limits of a clamp fails on the way.  Slope and case are
those of the closed form, and the band is the smallest one around the band of the closed form and
the range of the deviation.  It holds the staircase at every real number of the interval; at
rational numbers this staircase is `roundClamp`. -/
theorem roundClampRelaxation_encloses_reals (b : Bound ℚ) (c : ℤ) (hc : 1 ≤ c) :
    ∃ (r : Relaxation ℚ) (band range : Bound ℚ),
      roundClampRelaxation b (c : ℚ) = .ok (r, (roundClampFormula b (c : ℚ)).2) ∧
      r.slope = (roundClampFormula b (c : ℚ)).1.slope ∧ 0 ≤ r.error ∧
      Bound.around (roundClampFormula b (c : ℚ)).1.offset (roundClampFormula b (c : ℚ)).1.error =
        .ok band ∧
      staircaseDeviation b (c : ℚ) r.slope = .ok range ∧
      (∀ d : Bound ℚ, d.encloses ⟨r.offset - r.error, r.offset + r.error⟩ ↔
        d.encloses band ∧ d.encloses range) ∧
      (∀ x : ℝ, b.lower ≤ x → x ≤ b.upper → r.HoldsReal x (realStair c x)) ∧
      ∀ x : ℚ, roundClamp (c : ℚ) x = .ok (realStair c x : ℚ) := by
  have hc₀ : 0 ≤ c := by omega
  have herror := roundClampFormula_error_nonneg (b := b) hc
  refine ⟨staircaseRelaxation b c, (roundClampFormula b (c : ℚ)).1.intercepts, _,
    roundClampRelaxation_eq b hc, Relaxation.slope_widen _ _,
    Relaxation.error_widen_nonneg herror _, if_pos herror,
    staircaseDeviation_eq (by exact_mod_cast hc₀) b _, fun d => ?_,
    fun x => Relaxation.holdsReal_of_holds hc₀ fun y hy => staircaseRelaxation_holds hc₀ hy,
    roundClamp_eq_realStair hc₀⟩
  show d.encloses (staircaseRelaxation b c).intercepts ↔ _
  rw [intercepts_staircaseRelaxation, Bound.encloses_union_iff]

/-- Over this interval the closed form is too narrow and is widened: its band reaches from
`-5/6` to `1/6`, the deviations down to `-4/3`. -/
theorem steepInterval_encloses_reals :
    roundClampRelaxation (⟨-1 / 10, 7 / 5⟩ : Bound ℚ) 15 =
        .ok (⟨5 / 3, -7 / 12, 3 / 4⟩, .spansLower) ∧
      ∀ x : ℝ, -1 / 10 ≤ x → x ≤ 7 / 5 →
        5 / 3 * x - 7 / 12 - 3 / 4 ≤ realStair 15 x ∧
          realStair 15 x ≤ 5 / 3 * x - 7 / 12 + 3 / 4 := by
  have hr : roundClampRelaxation (⟨-1 / 10, 7 / 5⟩ : Bound ℚ) 15 =
      .ok (⟨5 / 3, -7 / 12, 3 / 4⟩, .spansLower) := by
    decide +kernel
  refine ⟨hr, fun x hl hu => ?_⟩
  obtain ⟨r, _, _, hok, _, _, _, _, _, hreal, _⟩ :=
    roundClampRelaxation_encloses_reals ⟨-1 / 10, 7 / 5⟩ 15 (by decide)
  obtain ⟨rfl, _⟩ := Prod.mk.inj (Except.ok.inj (hok.symm.trans hr))
  obtain ⟨h₁, h₂⟩ := hreal x (by push_cast; exact hl) (by push_cast; exact hu)
  push_cast at h₁ h₂
  exact ⟨by linarith, by linarith⟩

end QuantEnclosure
