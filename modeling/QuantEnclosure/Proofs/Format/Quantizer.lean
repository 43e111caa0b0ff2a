import QuantEnclosure.Format.Config
import QuantEnclosure.Proofs.Bound
import QuantEnclosure.Proofs.Outcome
import QuantEnclosure.Proofs.Scalar.Rounding
import Mathlib.Algebra.Order.Field.Basic

/-!
Valid formats in exact arithmetic.  A format is accepted exactly if its width and its scaling lie
in their ranges (`validateAs_eq_ok`).  Then rounding to it never fails: it is the monotone
function `rounded`, and its error stays in `errorBand`.
-/

namespace QuantEnclosure

open Scalar

namespace Format

/-! ## Validity -/

/-- The width and the scaling lie in the ranges of a valid format. -/
structure Valid (f : Format) : Prop where
  bits_pos : 1 ≤ f.bits.toNat
  bits_le : f.bits.toNat ≤ maxBits
  neg_le_scaling : -(maxScaling : Int) ≤ f.scaling.toInt
  scaling_le : f.scaling.toInt ≤ maxScaling

theorem negated_eq_ok {s : Int32} {k : Int} :
    negated s = .ok k ↔ s ≠ Int32.minValue ∧ k = -s.toInt := by
  unfold negated
  split
  · next h => simp [violate, h]
  · next h =>
    constructor
    · intro hk
      exact ⟨h, (Except.ok.inj hk).symm⟩
    · rintro ⟨_, rfl⟩
      rfl

theorem ne_minValue {s : Int32} (h : -(maxScaling : Int) ≤ s.toInt) : s ≠ Int32.minValue := by
  rintro rfl
  rw [Int32.toInt_minValue] at h
  simp [maxScaling] at h

private theorem le_of_fault_none {fault : Fault} {m k : Int}
    (h : (.ok (if k < m then some fault else none) : Outcome (Option Fault)) = .ok none) :
    m ≤ k := by
  by_contra hgt
  simp [not_le.mp hgt] at h

theorem fault?_eq_none {f : Format} : f.fault? = .ok none ↔ f.Valid := by
  unfold fault?
  split
  · next h =>
    constructor
    · simp
    · intro hv
      have := hv.bits_pos
      simp [h] at this
  · next h =>
    have hpos : 1 ≤ f.bits.toNat := by
      have : f.bits.toNat ≠ 0 := fun hz => h (UInt32.toNat_inj.mp (by simpa using hz))
      omega
    split
    · next hw =>
      constructor
      · simp
      · intro hv
        have := hv.bits_le
        omega
    · next hw =>
      have h₀ : (0 : Int32).toInt = 0 := rfl
      dsimp only
      split
      · next hneg =>
        have hneg := Int32.lt_iff_toInt_lt.mp hneg
        rw [bind_eq_ok]
        constructor
        · rintro ⟨m, hm, hs⟩
          obtain ⟨_, rfl⟩ := negated_eq_ok.mp hm
          have := le_of_fault_none hs
          exact ⟨hpos, by omega, by omega, by omega⟩
        · intro hv
          have h₁ := hv.neg_le_scaling
          exact ⟨_, negated_eq_ok.mpr ⟨ne_minValue h₁, rfl⟩, by rw [if_neg (by omega)]⟩
      · next hneg =>
        rw [Int32.lt_iff_toInt_lt] at hneg
        constructor
        · intro hs
          have := le_of_fault_none hs
          exact ⟨hpos, by omega, by omega, this⟩
        · intro hv
          have h₁ := hv.scaling_le
          show Except.ok (if _ then _ else _) = _
          rw [if_neg (by omega)]

theorem validateAs_eq_ok {label : String} {f : Format} :
    f.validateAs label = .ok () ↔ f.Valid := by
  rw [← fault?_eq_none, validateAs, bind_eq_ok]
  constructor
  · rintro ⟨fault, hf, h⟩
    cases fault with
    | none => exact hf
    | some fault => cases h
  · intro h
    exact ⟨none, h, rfl⟩

/-! ## Represented numbers -/

variable {f : Format}

theorem toInt_signedBits (h : f.Valid) : f.signedBits.toInt = f.bits.toNat := by
  have hb := h.bits_le
  have : f.bits.toInt32 = Int32.ofNat f.bits.toNat := by
    simp only [Int32.ofNat, BitVec.ofNat_uInt32ToNat]
    rfl
  rw [signedBits, this]
  exact Int32.toInt_ofNat_of_lt (by simp only [maxBits] at hb; omega)

def least (f : Format) : ℤ :=
  match f.strategy with
  | .positiveOnly => 0
  | .symmetric => -2 ^ (f.bits.toNat - 1)

def greatest (f : Format) : ℤ :=
  match f.strategy with
  | .positiveOnly => 2 ^ f.bits.toNat - 1
  | .symmetric => 2 ^ (f.bits.toNat - 1) - 1

theorem intRange_eq (h : f.Valid) : f.intRange = .ok ((f.least : ℚ), (f.greatest : ℚ)) := by
  have hb := toInt_signedBits h
  have hpos := h.bits_pos
  unfold intRange least greatest
  cases f.strategy with
  | positiveOnly => simp [hb]
  | symmetric =>
    have hm : f.signedBits ≠ Int32.minValue := by
      intro he
      rw [he, Int32.toInt_minValue] at hb
      omega
    have hs : (f.bits.toNat : ℤ) - 1 = ((f.bits.toNat - 1 : ℕ) : ℤ) := by omega
    simp [hm, hb, hs]

theorem least_le_greatest (f : Format) : (f.least : ℚ) ≤ f.greatest := by
  have hle : f.least ≤ f.greatest := by
    unfold least greatest
    cases f.strategy with
    | positiveOnly =>
      have := pow_pos (show (0 : ℤ) < 2 by decide) f.bits.toNat
      show (0 : ℤ) ≤ 2 ^ f.bits.toNat - 1
      omega
    | symmetric =>
      have := pow_pos (show (0 : ℤ) < 2 by decide) (f.bits.toNat - 1)
      show (-2 ^ (f.bits.toNat - 1) : ℤ) ≤ 2 ^ (f.bits.toNat - 1) - 1
      omega
  exact_mod_cast hle

theorem step_eq (h : f.Valid) : f.step = .ok ((2 : ℚ) ^ (-f.scaling.toInt)) := by
  refine bind_eq_ok.mpr ⟨-f.scaling.toInt, ?_, rfl⟩
  exact negated_eq_ok.mpr ⟨ne_minValue h.neg_le_scaling, rfl⟩

theorem scaleFactor_pos (f : Format) : (0 : ℚ) < f.scaleFactor := by
  rw [scaleFactor, twoPow_exact]
  exact zpow_pos (by norm_num) _

def gap (f : Format) : ℚ := 2 ^ (-f.scaling.toInt)

theorem gap_pos (f : Format) : 0 < f.gap := zpow_pos (by norm_num) _

theorem scaleFactor_mul_gap (f : Format) : (f.scaleFactor : ℚ) * f.gap = 1 := by
  rw [scaleFactor, twoPow_exact, gap, zpow_neg]
  exact mul_inv_cancel₀ (zpow_pos (by norm_num) _).ne'

theorem representable_eq (h : f.Valid) :
    f.representable = .ok ⟨f.least * f.gap, f.greatest * f.gap⟩ := by
  refine bind_eq_ok.mpr ⟨(f.least, f.greatest), intRange_eq h, ?_⟩
  refine bind_eq_ok.mpr ⟨f.gap, step_eq h, ?_⟩
  exact if_pos (mul_le_mul_of_nonneg_right (f.least_le_greatest) f.gap_pos.le)

/-! ## Rounding to the format -/

def rounded (f : Format) (x : ℚ) : ℚ :=
  nearestIn (f.least : ℚ) f.greatest (Scalar.round (x * f.scaleFactor)) * f.gap

theorem quantizer_eq (h : f.Valid) : f.quantizer = .ok f.rounded := by
  refine bind_eq_ok.mpr ⟨(f.least, f.greatest), intRange_eq h, ?_⟩
  dsimp only
  rw [if_pos (f.least_le_greatest)]
  exact bind_eq_ok.mpr ⟨f.gap, step_eq h, rfl⟩

theorem quantize_eq (h : f.Valid) (x : ℚ) : f.quantize x = .ok (f.rounded x) :=
  bind_eq_ok.mpr ⟨f.rounded, quantizer_eq h, rfl⟩

theorem quantizeVec_eq (h : f.Valid) (xs : List ℚ) :
    f.quantizeVec xs = .ok (xs.map f.rounded) :=
  mapM_ok xs fun x _ => quantize_eq h x

theorem rounded_mono (f : Format) {x y : ℚ} (hxy : x ≤ y) : f.rounded x ≤ f.rounded y := by
  have hr := round_mono (mul_le_mul_of_nonneg_right hxy f.scaleFactor_pos.le)
  exact mul_le_mul_of_nonneg_right (nearestIn_mono (f.least_le_greatest) hr) f.gap_pos.le

def errorBand (f : Format) (b : Bound ℚ) : Bound ℚ :=
  ⟨-(1 / 2 * f.gap) + min (f.greatest * f.gap - b.upper) 0,
    1 / 2 * f.gap + max (f.least * f.gap - b.lower) 0⟩

theorem errorRange_eq (h : f.Valid) (b : Bound ℚ) : f.errorRange b = .ok (f.errorBand b) := by
  refine bind_eq_ok.mpr ⟨f.gap, step_eq h, ?_⟩
  refine bind_eq_ok.mpr ⟨_, representable_eq h, ?_⟩
  simp only [lesser_eq_min, greater_eq_max, half_eq]
  apply if_pos
  have hg := f.gap_pos
  have h₁ := min_le_right (f.greatest * f.gap - b.upper) 0
  have h₂ := le_max_right (f.least * f.gap - b.lower) 0
  linarith

/-- Inside the range rounding moves a number by at most half a gap; beyond it the number is moved
to the end of the range. -/
theorem rounded_sub_mem (f : Format) {b : Bound ℚ} {x : ℚ} (hb : x ∈ b) :
    f.rounded x - x ∈ f.errorBand b := by
  obtain ⟨hl, hu⟩ := hb
  have hg := f.gap_pos
  have hx : x * f.scaleFactor * f.gap = x := by
    rw [mul_assoc, scaleFactor_mul_gap, mul_one]
  obtain ⟨h₁, h₂⟩ := round_within (x * f.scaleFactor)
  have h₁ := mul_le_mul_of_nonneg_right h₁ hg.le
  have h₂ := mul_le_mul_of_nonneg_right h₂ hg.le
  rw [hx] at h₁ h₂
  have hmin₁ := min_le_left (f.greatest * f.gap - b.upper) 0
  have hmin₂ := min_le_right (f.greatest * f.gap - b.upper) 0
  have hmax₁ := le_max_left (f.least * f.gap - b.lower) 0
  have hmax₂ := le_max_right (f.least * f.gap - b.lower) 0
  simp only [Bound.mem_iff, errorBand, rounded, nearestIn]
  split
  · next hlow =>
    have := mul_le_mul_of_nonneg_right hlow.le hg.le
    constructor <;> linarith
  · split
    · next hhigh =>
      have := mul_le_mul_of_nonneg_right hhigh.le hg.le
      constructor <;> linarith
    · constructor <;> linarith

end Format

/-! ## Configurations -/

namespace Config

/-- Every role has a valid format. -/
structure Valid (c : Config) : Prop where
  input : c.input.Valid
  weights : c.weights.Valid
  biases : c.biases.Valid
  activations : c.activations.Valid

theorem validate_eq_ok {c : Config} : c.validate = .ok () ↔ c.Valid := by
  have hforM : c.validate = (do
      c.input.validateAs (Role.input.name ++ ": ")
      c.weights.validateAs (Role.weights.name ++ ": ")
      c.biases.validateAs (Role.biases.name ++ ": ")
      c.activations.validateAs (Role.activations.name ++ ": ")
      pure PUnit.unit) := rfl
  rw [hforM]
  simp only [bind_eq_ok]
  constructor
  · rintro ⟨_, hi, _, hw, _, hb, _, ha, _⟩
    exact ⟨Format.validateAs_eq_ok.mp hi, Format.validateAs_eq_ok.mp hw,
      Format.validateAs_eq_ok.mp hb, Format.validateAs_eq_ok.mp ha⟩
  · rintro ⟨hi, hw, hb, ha⟩
    exact ⟨(), Format.validateAs_eq_ok.mpr hi, (), Format.validateAs_eq_ok.mpr hw,
      (), Format.validateAs_eq_ok.mpr hb, (), Format.validateAs_eq_ok.mpr ha, rfl⟩

theorem scale_pos (c : Config) : (0 : ℚ) < c.scale := c.activations.scaleFactor_pos

/-- The ceiling of the activations is a positive integer. -/
theorem exists_ceiling_eq {c : Config} (h : c.Valid) :
    ∃ k : ℤ, (c.ceiling : ℚ) = k ∧ 1 ≤ k := by
  have hb := Format.toInt_signedBits h.activations
  have hpos := h.activations.bits_pos
  refine ⟨2 ^ c.activations.bits.toNat - 1, ?_, ?_⟩
  · simp [ceiling, hb]
  · have : (2 : ℤ) ^ 1 ≤ 2 ^ c.activations.bits.toNat := pow_le_pow_right₀ (by decide) hpos
    omega

end Config

end QuantEnclosure
