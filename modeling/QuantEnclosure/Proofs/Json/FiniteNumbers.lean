import QuantEnclosure.Json.Number
import QuantEnclosure.Proofs.Scalar.Binary64
import Mathlib.Tactic.NormNum
import Mathlib.Tactic.Positivity

/-!
The numbers of JSON texts are finite.  A decimal with a positive exponent is checked after its one
multiplication; one with a negative exponent is divided by powers of ten, which are all at least two
and so keep a finite number finite (`isFinite_shrink`).
-/

namespace QuantEnclosure.Json

open Float.Model Float.Model.UnpackedFloat Binary64

theorem Number.isFinite_toFloat_int (i : Int) : (Number.int i).toFloat.isFinite = true :=
  isFinite_signed (isFinite_toFloat _) (i < 0)

namespace Numeral

/-! ## Powers of ten -/

/-- The powers that are not taken from the table are rounded once. -/
theorem floatTenPow_eq {k : Nat} (hlo : 22 < k) (hhi : k ≤ maxTenPow) :
    floatTenPow k = .ofModel (Float.Model.pack
      (roundWithAccuracy .binary64 .positive (2 ^ 53 * 10 ^ k) (-53) .exact)) := by
  unfold maxTenPow at hhi
  have htable : ¬ (1 < 2 ^ 53 ∧ k ≤ 22) := by omega
  have hlarge : ¬ ((k : Int) > 2 ^ 11) := by omega
  have hsmall : ¬ ((k : Int) < -((2 ^ 11 : Int) + Nat.log2 1)) := by omega
  have hnat : (0 : Int) ≤ k := by omega
  unfold floatTenPow Float.ofScientific
  rw [dif_neg htable]
  show Float.ofModel (Float.Model.pack (UnpackedFloat.ofScientific .binary64 1 k)) = _
  rw [UnpackedFloat.ofScientific, dif_neg Nat.one_ne_zero, if_neg hlarge, if_neg hsmall,
    if_pos hnat]
  rfl

theorem log2_tenPow {k : Nat} (hpos : 1 ≤ k) (hk : k ≤ 307) :
    56 ≤ (2 ^ 53 * 10 ^ k).log2 ∧ (2 ^ 53 * 10 ^ k).log2 ≤ 1072 := by
  have hm : 2 ^ 53 * 10 ^ k ≠ 0 := by positivity
  have hlo : 2 ^ 3 ≤ 10 ^ k := le_trans (by norm_num) (Nat.pow_le_pow_right (by norm_num) hpos)
  have hhi : 10 ^ k < 2 ^ 1020 :=
    lt_of_le_of_lt (Nat.pow_le_pow_right (by norm_num) hk) (by decide +kernel)
  constructor
  · exact (Nat.le_log2 hm).mpr (by omega)
  · apply log2_le_of_lt
    calc 2 ^ 53 * 10 ^ k < 2 ^ 53 * 2 ^ 1020 := Nat.mul_lt_mul_of_pos_left hhi (by positivity)
      _ = 2 ^ (1072 + 1) := by rw [← pow_add]

/-- From ten to the largest power, all powers are finite and not below two. -/
theorem exponentField_floatTenPow {k : Nat} (hpos : 1 ≤ k) (hk : k ≤ maxTenPow) :
    1024 ≤ exponentField (floatTenPow k) ∧ exponentField (floatTenPow k) ≤ 2046 := by
  by_cases hsmall : k ≤ 22
  · have htable : ∀ k ≤ 22, 1 ≤ k →
        1024 ≤ exponentField (floatTenPow k) ∧ exponentField (floatTenPow k) ≤ 2046 := by decide
    exact htable k hsmall hpos
  by_cases hlast : k = maxTenPow
  · subst hlast
    decide +kernel
  · have hk' : k ≤ 307 := by
      unfold maxTenPow at hk hlast
      omega
    obtain ⟨hlo, hhi⟩ := log2_tenPow hpos hk'
    have hfits : Fits (roundWithAccuracy .binary64 .positive (2 ^ 53 * 10 ^ k) (-53) .exact) := by
      apply roundWithAccuracy_fits _ _ (by omega)
      unfold totalExponent
      omega
    obtain ⟨m, e, h, heq, hlog, hle⟩ := roundWithAccuracy_normal .positive (m := 2 ^ 53 * 10 ^ k)
      (e := -53) .exact (by omega) (by omega)
    rw [heq] at hfits
    have he : e ≤ 971 := hfits
    rw [floatTenPow_eq (by omega) hk, heq, exponentField_pack hlog (by omega) he]
    omega

theorem isFinite_floatTenPow {k : Nat} (hk : k ≤ maxTenPow) : (floatTenPow k).isFinite = true := by
  cases k with
  | zero => decide
  | succ k =>
    have hfield := exponentField_floatTenPow (k := k + 1) (by omega) hk
    rw [isFinite_iff_exponentField]
    omega

/-! ## Numerals -/

theorem isFinite_shrink (f : Float) (k : Nat) (hf : f.isFinite = true) (hk : 1 ≤ k) :
    (shrink f k).isFinite = true := by
  induction f, k using shrink.induct with
  | case1 f k h =>
    rw [shrink, if_pos h]
    obtain ⟨hlo, hhi⟩ := exponentField_floatTenPow hk h
    exact isFinite_div hf hlo hhi
  | case2 f k h hzero =>
    rw [shrink, if_neg h, if_pos hzero]
    exact hf
  | case3 f k h hzero ih =>
    rw [shrink, if_neg h, if_neg hzero]
    obtain ⟨hlo, hhi⟩ := exponentField_floatTenPow (by decide : 1 ≤ maxTenPow) (by decide)
    exact ih (isFinite_div hf hlo hhi) (by omega)

theorem isFinite_of_scaled {s : Nat} {e : Int} {f : Float} (h : scaled? s e = some f) :
    f.isFinite = true := by
  have hs := isFinite_toFloat s.toUInt64
  unfold scaled? at h
  dsimp only at h
  split at h
  · cases h
    exact isFinite_shrink _ _ hs (by omega)
  · split at h
    · rename_i he
      split at h
      · cases h
      · rename_i hinf
        cases h
        exact isFinite_mul hs (isFinite_floatTenPow he) (by simpa using hinf)
    · split at h
      · cases h
        exact hs
      · cases h

theorem isFinite_of_real {n : Numeral} {f : Float} (h : n.real? = some f) : f.isFinite = true := by
  unfold real? at h
  dsimp only at h
  split at h
  · exact isFinite_of_scaled h
  · split at h
    · exact isFinite_of_scaled h
    · split at h
      · cases h
        decide
      · cases h

/-- No numeral stands for an infinity or for something that is not a number. -/
theorem isFinite_of_value {n : Numeral} {v : Number} (h : n.value? = some v) :
    v.toFloat.isFinite = true := by
  unfold value? at h
  dsimp only at h
  split at h
  · split at h
    · cases h
      exact Number.isFinite_toFloat_int _
    · split at h
      · cases h
        exact isFinite_neg (isFinite_toFloat _)
      · cases h
        exact Number.isFinite_toFloat_int _
  · obtain ⟨f, hf, rfl⟩ := Option.map_eq_some_iff.mp h
    exact isFinite_signed (isFinite_of_real hf) n.negative

end Numeral

end QuantEnclosure.Json
