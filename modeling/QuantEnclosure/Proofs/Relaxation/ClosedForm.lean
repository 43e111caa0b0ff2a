import QuantEnclosure.Proofs.Relaxation.Staircase
import Mathlib.Tactic.Positivity

/-!
The closed form of the staircase's relaxation and its widening, with an integer ceiling.  Where an
interval can lie and what it gets there is said once (`roundClampFormula_case`).  In every case the
denominator of the slope is positive and the error is not negative, so the widened relaxation
exists (`roundClampRelaxation_eq`), and it holds the staircase over the whole interval
(`staircaseRelaxation_holds`).
-/

namespace QuantEnclosure

open Scalar

theorem Relaxation.ofIntercepts_error_nonneg {slope top bottom : ℚ} (h : bottom ≤ top) :
    0 ≤ (Relaxation.ofIntercepts slope top bottom).error := by
  simp only [Relaxation.ofIntercepts, half_eq]
  linarith

namespace Relaxation

/-- The values at zero of the lines that bound the band. -/
def intercepts (r : Relaxation ℚ) : Bound ℚ := ⟨r.offset - r.error, r.offset + r.error⟩

theorem holds_iff {r : Relaxation ℚ} {x y : ℚ} :
    r.Holds x y ↔ deviation r.slope x y ∈ r.intercepts := by
  simp only [Holds, Bound.mem_iff, intercepts, deviation]
  constructor
  · rintro ⟨h₁, h₂⟩
    exact ⟨by linarith, by linarith⟩
  · rintro ⟨h₁, h₂⟩
    exact ⟨by linarith, by linarith⟩

theorem intercepts_ofIntercepts (slope top bottom : ℚ) :
    (ofIntercepts slope top bottom).intercepts = ⟨bottom, top⟩ := by
  simp only [intercepts, ofIntercepts, half_eq, Bound.mk.injEq]
  constructor <;> ring

theorem ofIntercepts_holds_iff {slope top bottom x y : ℚ} :
    (ofIntercepts slope top bottom).Holds x y ↔
      bottom ≤ y - slope * x ∧ y - slope * x ≤ top := by
  rw [holds_iff, intercepts_ofIntercepts]
  rfl

/-- The band of the same slope that also covers `range`. -/
def widen (r : Relaxation ℚ) (range : Bound ℚ) : Relaxation ℚ :=
  if r.intercepts.encloses range then r
  else ⟨r.slope, (r.intercepts.union range).midpoint, (r.intercepts.union range).radius⟩

theorem slope_widen (r : Relaxation ℚ) (range : Bound ℚ) : (r.widen range).slope = r.slope := by
  unfold widen
  split <;> rfl

/-- The widened band is the smallest one around the band and the range. -/
theorem intercepts_widen (r : Relaxation ℚ) (range : Bound ℚ) :
    (r.widen range).intercepts = r.intercepts.union range := by
  unfold widen
  split
  · next he => exact (Bound.union_eq_left he).symm
  · exact Bound.midpoint_radius _

theorem error_widen_nonneg {r : Relaxation ℚ} (h : 0 ≤ r.error) (range : Bound ℚ) :
    0 ≤ (r.widen range).error := by
  have hunion := intercepts_widen r range
  have hl := congrArg Bound.lower hunion
  have hu := congrArg Bound.upper hunion
  simp only [intercepts, Bound.union, lesser_eq_min, greater_eq_max] at hl hu
  have h₁ := min_le_left (r.offset - r.error) range.lower
  have h₂ := le_max_left (r.offset + r.error) range.upper
  linarith

theorem mem_intercepts_widen (r : Relaxation ℚ) {range : Bound ℚ} {y : ℚ} (h : y ∈ range) :
    y ∈ (r.widen range).intercepts := by
  rw [intercepts_widen]
  exact Bound.mem_union_right _ h

end Relaxation

section

variable {b : Bound ℚ} {c : ℤ}

/-! ## Denominators -/

/-- What `spanningSlope` divides the ceiling by. -/
def spanningDivisor (l u ceiling : ℚ) : ℚ :=
  if (ceiling - l ≤ u ∧ half ≤ ceiling - l) ∨ (u ≤ ceiling - l ∧ -half ≤ l) then u - half
  else ceiling - l - half

theorem spanningSlope_eq (l u ceiling : ℚ) :
    spanningSlope l u ceiling = ceiling / spanningDivisor l u ceiling := by
  unfold spanningSlope spanningDivisor
  dsimp only
  rw [apply_ite (fun d => ceiling / d)]

/-- Over an interval that reaches below zero and above the ceiling, the denominator is at least
one half. -/
theorem spanningDivisor_pos {l u : ℚ} (hc : 1 ≤ c) (hl : l ≤ 0) (hu : (c : ℚ) ≤ u) :
    0 < spanningDivisor l u c := by
  have hc : (1 : ℚ) ≤ c := by exact_mod_cast hc
  unfold spanningDivisor
  rw [half_eq]
  split
  · linarith
  · linarith

theorem spanningSlope_nonneg {l u : ℚ} (hc : 1 ≤ c) (hl : l ≤ 0) (hu : (c : ℚ) ≤ u) :
    0 ≤ spanningSlope l u c := by
  have hc₀ : (0 : ℚ) ≤ c := by exact_mod_cast (by omega : (0 : ℤ) ≤ c)
  rw [spanningSlope_eq]
  exact div_nonneg hc₀ (spanningDivisor_pos hc hl hu).le

/-- A positive number that does not round to zero rounds to a positive integer. -/
theorem exists_round_eq_pos {u : ℚ} (hu : 0 < u) (h : Scalar.round u ≠ 0) :
    ∃ k : ℤ, Scalar.round u = k ∧ 1 ≤ k ∧ u < k + 1 / 2 := by
  obtain ⟨k, hk⟩ := exists_round_eq u
  obtain ⟨h₀, _, hlt⟩ := round_bounds_of_nonneg hu.le
  rw [hk] at h h₀ hlt
  have h₁ : (0 : ℤ) ≤ k := by exact_mod_cast h₀
  have h₂ : k ≠ 0 := by exact_mod_cast h
  exact ⟨k, hk, by omega, hlt⟩

/-- A number below the ceiling that does not round to it rounds to a lower integer. -/
theorem exists_round_eq_below {l : ℚ} (hl : l < c) (h : Scalar.round l ≠ c) :
    ∃ k : ℤ, Scalar.round l = k ∧ k < c ∧ (k : ℚ) - 1 / 2 ≤ l := by
  obtain ⟨k, hk⟩ := exists_round_eq l
  have hw := (round_within l).1
  rw [hk] at h hw
  have h₁ : k < c + 1 := by
    have : (k : ℚ) < c + 1 := by linarith
    exact_mod_cast this
  have h₂ : k ≠ c := by exact_mod_cast h
  exact ⟨k, hk, by omega, hw⟩

/-- Over an interval that reaches below zero only, the denominator is at least one half. -/
theorem lower_denominator_pos {l u : ℚ} (hl : l ≤ 0) (hu : 0 < u) (h : Scalar.round u ≠ 0) :
    0 < Scalar.round u - l - 1 / 2 := by
  obtain ⟨k, hk, hk₁, _⟩ := exists_round_eq_pos hu h
  have hk₁ : (1 : ℚ) ≤ k := by exact_mod_cast hk₁
  rw [hk]
  linarith

/-- Over an interval that reaches above the ceiling only, the denominator is at least one half. -/
theorem upper_denominator_pos {l u : ℚ} (hl : l < c) (hu : (c : ℚ) < u)
    (h : Scalar.round l ≠ c) : 0 < u - Scalar.round l - 1 / 2 := by
  obtain ⟨k, hk, hkc, _⟩ := exists_round_eq_below hl h
  have hkc : (k : ℚ) + 1 ≤ c := by exact_mod_cast hkc
  rw [hk]
  linarith

/-- An interval above zero that does not lie between zero and the ceiling reaches above it. -/
theorem ceiling_lt_upper {l u : ℚ} (hl : ¬l ≤ 0) (h : ¬(0 ≤ l ∧ u ≤ c)) : (c : ℚ) < u := by
  by_contra hle
  exact h ⟨(not_le.mp hl).le, not_lt.mp hle⟩

/-- What `roundClampFormula` divides by. -/
def roundClampDivisors (ceiling : ℚ) (b : Bound ℚ) : List ℚ :=
  let l := b.lower
  let u := b.upper
  if u ≤ 0 then []
  else if ceiling ≤ l then []
  else if 0 ≤ l ∧ u ≤ ceiling then []
  else if l ≤ 0 ∧ ceiling ≤ u then [spanningDivisor l u ceiling]
  else if l ≤ 0 then
    if Scalar.round u == 0 then [] else [Scalar.round u - l - half]
  else if Scalar.round l == ceiling then [] else [u - Scalar.round l - half]

theorem roundClampDivisors_pos (hc : 1 ≤ c) (b : Bound ℚ) :
    ∀ d ∈ roundClampDivisors (c : ℚ) b, 0 < d := by
  intro d hd
  unfold roundClampDivisors at hd
  simp only [half_eq] at hd
  split at hd
  · cases hd
  · next h₁ =>
    split at hd
    · cases hd
    · next h₂ =>
      split at hd
      · cases hd
      · next h₃ =>
        split at hd
        · next h₄ =>
          rcases List.mem_singleton.mp hd with rfl
          exact spanningDivisor_pos hc h₄.1 h₄.2
        · split at hd
          · next h₅ =>
            split at hd
            · cases hd
            · next h₆ =>
              rcases List.mem_singleton.mp hd with rfl
              exact lower_denominator_pos h₅ (not_le.mp h₁) (by simpa using h₆)
          · next h₅ =>
            split at hd
            · cases hd
            · next h₆ =>
              have hu := ceiling_lt_upper h₅ h₃
              rcases List.mem_singleton.mp hd with rfl
              exact upper_denominator_pos (not_le.mp h₂) hu (by simpa using h₆)

/-- Exact arithmetic in which `quotient` stands for division. -/
@[reducible] def Scalar.dividingBy (quotient : ℚ → ℚ → ℚ) : Scalar ℚ :=
  { Scalar.exact with div := quotient }

section

variable {quotient : ℚ → ℚ → ℚ} (h₂ : quotient 1 2 = 1 / 2)
include h₂

theorem half_dividingBy : @half ℚ (dividingBy quotient) = half := by
  have h : @half ℚ (dividingBy quotient) = quotient 1 (1 + 1) := rfl
  rw [h, one_add_one_eq_two, h₂, half_eq]

theorem ofIntercepts_dividingBy (slope top bottom : ℚ) :
    @Relaxation.ofIntercepts ℚ (dividingBy quotient) slope top bottom =
      .ofIntercepts slope top bottom := by
  unfold Relaxation.ofIntercepts
  rw [half_dividingBy h₂]

theorem spanningSlope_dividingBy (l u ceiling : ℚ) :
    @spanningSlope ℚ (dividingBy quotient) l u ceiling =
      quotient ceiling (spanningDivisor l u ceiling) := by
  unfold spanningSlope spanningDivisor
  simp only [half_dividingBy h₂, half_eq]
  split <;> rfl

/-- The list of divisors is complete: one half apart, the closed form depends on quotients by
listed numbers only. -/
theorem roundClampFormula_dividingBy {ceiling : ℚ}
    (h : ∀ n, ∀ d ∈ roundClampDivisors ceiling b, quotient n d = n / d) :
    @roundClampFormula ℚ (dividingBy quotient) b ceiling = roundClampFormula b ceiling := by
  have hround : @Scalar.round ℚ (dividingBy quotient) = Scalar.round := rfl
  unfold roundClampFormula
  unfold roundClampDivisors at h
  revert h
  simp only [hround, half_dividingBy h₂, half_eq, ofIntercepts_dividingBy h₂,
    spanningSlope_dividingBy h₂, spanningSlope_eq]
  split
  · exact fun _ => rfl
  · split
    · exact fun _ => rfl
    · split
      · exact fun _ => rfl
      · split
        · intro h
          rw [h _ _ (List.mem_singleton_self _)]
          rfl
        · split
          · split
            · exact fun _ => rfl
            · intro h
              rw [← h (Scalar.round b.upper) _ (List.mem_singleton_self _)]
              rfl
          · split
            · exact fun _ => rfl
            · intro h
              rw [← h (ceiling - Scalar.round b.lower) _ (List.mem_singleton_self _)]
              rfl

end

/-! ## The cases -/

/-- The relaxations that the closed form gives, each with the place of the interval.  Where the
interval spans one end only, the slope `a` is given by its equation, with the rounded end `k`. -/
inductive FormulaCase (b : Bound ℚ) (c : ℤ) : Relaxation ℚ → Prop
  | bottom (hu : b.upper < 1 / 2) : FormulaCase b c (.constant 0)
  | top (hl : (c : ℚ) - 1 / 2 ≤ b.lower) : FormulaCase b c (.constant c)
  | interior (hl : 0 ≤ b.lower) (hu : b.upper ≤ c) : FormulaCase b c ⟨1, 0, 1 / 2⟩
  | spansBoth {a : ℚ} (ha : 0 ≤ a) (hl : b.lower ≤ 0) (hu : (c : ℚ) ≤ b.upper) :
    FormulaCase b c (.ofIntercepts a (max (-a * b.lower) (c - a * (c - 1 / 2)))
      (min (-(1 / 2) * a) (c - a * b.upper)))
  | spansLower {k : ℤ} {a : ℚ} (hl : b.lower ≤ 0) (hu : b.upper < c) (hk : 1 ≤ k)
    (hr : b.upper < k + 1 / 2) (ha : 0 < a) (hslope : a * (k - b.lower - 1 / 2) = k) :
    FormulaCase b c (.ofIntercepts a (-a * b.lower) (-(1 / 2) * a))
  | spansUpper {k : ℤ} {a : ℚ} (hl : 0 < b.lower) (hu : (c : ℚ) < b.upper) (hk : k < c)
    (hr : (k : ℚ) - 1 / 2 ≤ b.lower) (ha : 0 < a) (hslope : a * (b.upper - k - 1 / 2) = c - k) :
    FormulaCase b c (.ofIntercepts a (c - a * (c - 1 / 2)) (c - a * b.upper))

theorem roundClampFormula_case (hc : 1 ≤ c) :
    FormulaCase b c (roundClampFormula b (c : ℚ)).1 := by
  unfold roundClampFormula
  simp only [half_eq, greater_eq_max, lesser_eq_min, beq_iff_eq]
  split
  · next h₁ => exact .bottom (by linarith)
  · next h₁ =>
    split
    · next h₂ => exact .top (by linarith)
    · next h₂ =>
      split
      · next h₃ => exact .interior h₃.1 h₃.2
      · next h₃ =>
        split
        · next h₄ => exact .spansBoth (spanningSlope_nonneg hc h₄.1 h₄.2) h₄.1 h₄.2
        · next h₄ =>
          split
          · next h₅ =>
            split
            · next h₆ =>
              have hlt := (round_bounds_of_nonneg (not_le.mp h₁).le).2.2
              exact .bottom (by linarith)
            · next h₆ =>
              have hd := lower_denominator_pos h₅ (not_le.mp h₁) h₆
              obtain ⟨k, hk, hk₁, hlt⟩ := exists_round_eq_pos (not_le.mp h₁) h₆
              rw [hk] at hd ⊢
              have hu : b.upper < c := not_le.mp fun hu => h₄ ⟨h₅, hu⟩
              have hk₀ : (0 : ℚ) < k := by exact_mod_cast hk₁
              exact .spansLower h₅ hu hk₁ hlt (div_pos hk₀ hd) (div_mul_cancel₀ _ hd.ne')
          · next h₅ =>
            split
            · next h₆ =>
              have hle := (round_within b.lower).1
              exact .top (by linarith)
            · next h₆ =>
              have hu := ceiling_lt_upper h₅ h₃
              have hd := upper_denominator_pos (not_le.mp h₂) hu h₆
              obtain ⟨k, hk, hkc, hle⟩ := exists_round_eq_below (not_le.mp h₂) h₆
              rw [hk] at hd ⊢
              have hkc₀ : (0 : ℚ) < c - k := sub_pos.mpr (by exact_mod_cast hkc)
              exact .spansUpper (not_le.mp h₅) hu hkc hle (div_pos hkc₀ hd)
                (div_mul_cancel₀ _ hd.ne')

/-! ## The error -/

theorem FormulaCase.error_nonneg {r : Relaxation ℚ} (h : FormulaCase b c r) : 0 ≤ r.error := by
  cases h with
  | bottom => exact le_refl 0
  | top => exact le_refl 0
  | interior => norm_num
  | @spansBoth a ha hl =>
    apply Relaxation.ofIntercepts_error_nonneg
    have h := mul_le_mul_of_nonneg_left hl ha
    calc min (-(1 / 2) * a) _
      _ ≤ -(1 / 2) * a := min_le_left _ _
      _ ≤ -a * b.lower := by linarith
      _ ≤ max (-a * b.lower) _ := le_max_left _ _
  | spansLower hl _ _ _ ha =>
    apply Relaxation.ofIntercepts_error_nonneg
    have h := mul_le_mul_of_nonneg_left hl ha.le
    linarith
  | spansUpper _ hu _ _ ha =>
    apply Relaxation.ofIntercepts_error_nonneg
    have h := mul_le_mul_of_nonneg_left hu.le ha.le
    linarith

theorem roundClampFormula_error_nonneg (hc : 1 ≤ c) :
    0 ≤ (roundClampFormula b (c : ℚ)).1.error := (roundClampFormula_case hc).error_nonneg

/-! ## The first two cases -/

/-- The case of the bottom is that of an interval up to zero. -/
theorem roundClampFormula_zero_iff {ceiling : ℚ} :
    (roundClampFormula b ceiling).2 = .zero ↔ b.upper ≤ 0 := by
  unfold roundClampFormula
  dsimp only
  split
  · next h => simp [h]
  · next h =>
    simp only [h, iff_false]
    repeat' split
    all_goals exact nofun

/-- The case of the top is that of an interval from the ceiling on. -/
theorem roundClampFormula_saturated_iff {ceiling : ℚ} :
    (roundClampFormula b ceiling).2 = .saturated ↔ 0 < b.upper ∧ ceiling ≤ b.lower := by
  unfold roundClampFormula
  dsimp only
  split
  · next h => simp [not_lt.mpr h]
  · next h =>
    split
    · next hl => simp [not_le.mp h, hl]
    · next hl =>
      simp only [hl, and_false, iff_false]
      repeat' split
      all_goals exact nofun

/-! ## The widened relaxation -/

def staircaseRelaxation (b : Bound ℚ) (ceiling : ℚ) : Relaxation ℚ :=
  let r := (roundClampFormula b ceiling).1
  r.widen (deviationRange b ceiling r.slope)

/-- Its band is the smallest one around the band of the closed form and the deviations. -/
theorem intercepts_staircaseRelaxation (b : Bound ℚ) (ceiling : ℚ) :
    (staircaseRelaxation b ceiling).intercepts = (roundClampFormula b ceiling).1.intercepts.union
      (deviationRange b ceiling (staircaseRelaxation b ceiling).slope) := by
  rw [staircaseRelaxation, Relaxation.slope_widen]
  exact Relaxation.intercepts_widen _ _

theorem roundClampRelaxation_eq (b : Bound ℚ) (hc : 1 ≤ c) :
    roundClampRelaxation b (c : ℚ) = .ok (staircaseRelaxation b c, (roundClampFormula b c).2) := by
  have hc₀ : (0 : ℚ) ≤ c := by exact_mod_cast (by omega : (0 : ℤ) ≤ c)
  have he := roundClampFormula_error_nonneg (b := b) hc
  unfold roundClampRelaxation staircaseRelaxation
  generalize roundClampFormula b (c : ℚ) = p at he ⊢
  obtain ⟨r, k⟩ := p
  refine bind_eq_ok.mpr ⟨r.intercepts, if_pos he, ?_⟩
  refine bind_eq_ok.mpr ⟨_, staircaseDeviation_eq hc₀ b r.slope, ?_⟩
  simp only [Relaxation.widen]
  split <;> rfl

/-- The widened relaxation holds the staircase at every number of the interval. -/
theorem staircaseRelaxation_holds (hc : 0 ≤ c) {x : ℚ} (hx : x ∈ b) :
    (staircaseRelaxation b c).Holds x (stair c x) := by
  rw [Relaxation.holds_iff, staircaseRelaxation, Relaxation.slope_widen]
  exact Relaxation.mem_intercepts_widen _ (deviation_mem_range _ hc hx)

end

end QuantEnclosure
