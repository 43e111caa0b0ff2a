import QuantEnclosure.Scalar
import Mathlib

/-!
When a binary64 operation has a finite result.  A number is rounded by dropping the digits that its
mantissa cannot keep; the exponent grows by as many, and once more if the last digit carries over
(`roundWithAccuracy_eq`).  A result is finite if its exponent is at most 971 (`Fits`).  So quotients
by numbers from two on are finite, and a product is finite or infinite but never something else.
-/

namespace QuantEnclosure.Binary64

open Float.Model Float.Model.UnpackedFloat

/-! ## Rounding -/

theorem mantissa_shiftRight (em : ExtendedMantissa) (n : Nat) :
    (em >>> n).mantissa = em.mantissa >>> n := by
  induction n with
  | zero => rfl
  | succ n ih =>
    rw [Nat.shiftRight_succ, ← ih]
    rfl

theorem mantissa_ofMantissaAndAccuracy (m : Nat) (a : Accuracy) :
    (ExtendedMantissa.ofMantissaAndAccuracy m a).mantissa = m := by
  unfold ExtendedMantissa.ofMantissaAndAccuracy
  split <;> rfl

theorem roundedMantissa_bounds (em : ExtendedMantissa) :
    em.mantissa ≤ em.roundedMantissa ∧ em.roundedMantissa ≤ em.mantissa + 1 := by
  unfold ExtendedMantissa.roundedMantissa Accuracy.roundToNearestEven
  split <;> omega

/-- The number of binary digits that a mantissa of binary64 cannot keep. -/
def surplus (m : Nat) (e : Int) : Nat := (max (m.log2 + 1 + e - 53) (-1074) - e).toNat

/-- Rounding drops digits, can add one in the last place, and drops the digit of a carry. -/
theorem roundWithAccuracy_eq (s : Sign) (m : Nat) (e : Int) (a : Accuracy) :
    ∃ r e', m >>> surplus m e ≤ r ∧ r ≤ m >>> surplus m e + 1 ∧ e' = e + surplus m e ∧
      roundWithAccuracy .binary64 s m e a =
        if h : r >>> surplus r e' = 0 then .zero s
        else .finite s (r >>> surplus r e') (e' + surplus r e') (Nat.pos_of_ne_zero h) := by
  have hbounds :=
    roundedMantissa_bounds (ExtendedMantissa.ofMantissaAndAccuracy m a >>> surplus m e)
  rw [mantissa_shiftRight, mantissa_ofMantissaAndAccuracy] at hbounds
  refine ⟨_, _, hbounds.1, hbounds.2, rfl, ?_⟩
  rw [← mantissa_shiftRight ⟨_, false, false⟩]
  rfl

theorem log2_le_of_lt {m k : Nat} (h : m < 2 ^ (k + 1)) : m.log2 ≤ k := by
  by_cases hm : m = 0
  · simp [hm]
  · exact Nat.lt_succ_iff.mp ((Nat.log2_lt hm).mpr h)

theorem shiftRight_lt (m n : Nat) : m >>> n < 2 ^ (m.log2 - n + 1) := by
  rw [Nat.shiftRight_eq_div_pow]
  apply Nat.div_lt_of_lt_mul
  rw [← pow_add]
  exact Nat.lt_of_lt_of_le Nat.lt_log2_self (Nat.pow_le_pow_right (by decide) (by omega))

theorem log2_shiftLeft_le (m n : Nat) : (m <<< n).log2 ≤ m.log2 + n := by
  apply log2_le_of_lt
  rw [Nat.shiftLeft_eq, show m.log2 + n + 1 = m.log2 + 1 + n by omega, pow_add]
  exact Nat.mul_lt_mul_of_pos_right Nat.lt_log2_self (Nat.two_pow_pos n)

def Fits : UnpackedFloat → Prop
  | .zero _ => True
  | .finite _ _ e _ => e ≤ 971
  | _ => False

theorem roundWithAccuracy_fits (s : Sign) {m : Nat} {e : Int} (a : Accuracy) (he : e ≤ 971)
    (hm : totalExponent m e ≤ 1023) : Fits (roundWithAccuracy .binary64 s m e a) := by
  obtain ⟨r, e', _, hr, rfl, heq⟩ := roundWithAccuracy_eq s m e a
  have hlog : r.log2 ≤ m.log2 - surplus m e + 1 := by
    have hlt := shiftRight_lt m (surplus m e)
    have hpos := Nat.two_pow_pos (m.log2 - surplus m e)
    apply log2_le_of_lt
    rw [pow_succ] at hlt ⊢
    rw [pow_succ]
    omega
  by_cases hzero : r >>> surplus r (e + surplus m e) = 0
  · rw [heq, dif_pos hzero]
    trivial
  · rw [heq, dif_neg hzero]
    show e + surplus m e + surplus r (e + surplus m e) ≤ 971
    unfold totalExponent at hm
    unfold surplus at *
    omega

/-- Rounding keeps the leading digit of a large number or moves it up. -/
theorem roundWithAccuracy_normal (s : Sign) {m : Nat} {e : Int} (a : Accuracy) (hm : 52 ≤ m.log2)
    (he : -1022 ≤ m.log2 + e) :
    ∃ m' e' h, roundWithAccuracy .binary64 s m e a = .finite s m' e' h ∧ m'.log2 = 52 ∧
      m.log2 + e - 52 ≤ e' := by
  obtain ⟨r, e', hlo, hhi, rfl, heq⟩ := roundWithAccuracy_eq s m e a
  have hs : surplus m e = m.log2 - 52 := by
    unfold surplus
    omega
  have hlower : 2 ^ 52 ≤ m >>> surplus m e := by
    have hm0 : m ≠ 0 := by
      rintro rfl
      simp at hm
    rw [hs, Nat.shiftRight_eq_div_pow, Nat.le_div_iff_mul_le (Nat.two_pow_pos _), ← pow_add,
      Nat.add_sub_cancel' hm]
    exact Nat.log2_self_le hm0
  have hupper : m >>> surplus m e < 2 ^ 53 := by
    have hlt := shiftRight_lt m (surplus m e)
    rwa [hs, show m.log2 - (m.log2 - 52) + 1 = 53 by omega, ← hs] at hlt
  have hlog : (r >>> surplus r (e + surplus m e)).log2 = 52 := by
    by_cases hcarry : r = 2 ^ 53
    · have hone : surplus r (e + surplus m e) = 1 := by
        rw [hcarry, surplus, Nat.log2_two_pow]
        omega
      rw [hone, hcarry]
      rfl
    · have hr : r.log2 = 52 := (Nat.log2_eq_iff (by omega)).mpr ⟨by omega, by omega⟩
      have hzero : surplus r (e + surplus m e) = 0 := by
        rw [surplus, hr]
        omega
      rw [hzero]
      exact hr
  have hne : r >>> surplus r (e + surplus m e) ≠ 0 := by
    intro h
    rw [h] at hlog
    simp at hlog
  exact ⟨_, _, _, heq.trans (dif_neg hne), hlog, by omega⟩

/-! ## Packing -/

theorem pack_finite (s : Sign) (m : Nat) (e : Int) (hm : 0 < m) :
    UnpackedFloat.pack .binary64 (.finite s m e hm) =
      if 972 ≤ e then packedInfinity .binary64 s
      else if m.log2 = 52 then
        packComponents .binary64 s (BitVec.ofNat 11 (e + 1075).toNat) (BitVec.ofNat 52 m)
      else packComponents .binary64 s 0#11 (BitVec.ofNat 52 m) := by
  have hbias : (e + Float.Model.Format.binary64.exponentBias + (52 : Nat)).toNat =
      (e + 1075).toNat := by
    show (e + (1023 : Nat) + (52 : Nat)).toNat = _
    omega
  have hlarge : 2 ^ 11 ≤ (e + 1075).toNat + 1 ↔ 972 ≤ e := by omega
  have hfull : m.log2 + 1 = Float.Model.Format.binary64.mantissaBits ↔ m.log2 = 52 := by
    show m.log2 + 1 = 1 + 52 ↔ _
    omega
  unfold UnpackedFloat.pack
  simp only [hbias, hlarge, hfull]

/-- All but one exponent field stand for a finite number. -/
theorem isFinite_unpack {b : BitVec Float.Model.Format.binary64.numBits} :
    (UnpackedFloat.unpack .binary64 b).isFinite = true ↔ unpackExponent b ≠ -1#11 := by
  unfold UnpackedFloat.unpack
  dsimp only
  by_cases hinf : unpackExponent b = -1#11
  · rw [if_pos hinf]
    split <;> exact iff_of_false Bool.false_ne_true (not_not_intro hinf)
  · rw [if_neg hinf]
    by_cases hzero : unpackExponent b = 0#11
    · rw [if_pos hzero]
      split <;> exact iff_of_true rfl hinf
    · rw [if_neg hzero]
      exact iff_of_true rfl hinf

theorem isFinite_pack {u : UnpackedFloat} (h : Fits u) : (Float.Model.pack u).isFinite = true := by
  apply isFinite_unpack.mpr
  show unpackExponent (UnpackedFloat.pack .binary64 u) ≠ -1#11
  match u, h with
  | .zero s, _ =>
    show unpackExponent (packComponents .binary64 s 0 0) ≠ -1#_
    rw [unpackExponent_packComponents]
    decide
  | .finite s m e hm, h =>
    have he : e ≤ 971 := h
    rw [pack_finite, if_neg (by omega)]
    split
    · rw [unpackExponent_packComponents]
      intro hall
      have hnat := congrArg BitVec.toNat hall
      rw [BitVec.toNat_ofNat] at hnat
      change _ = 2047 at hnat
      omega
    · rw [unpackExponent_packComponents]
      decide

/-- A number whose exponent has no room is packed as an infinity, never as something else. -/
theorem isFinite_of_isInf_eq_false {s : Sign} {m : Nat} {e : Int} {hm : 0 < m}
    (h : (Float.Model.pack (.finite s m e hm)).isInf = false) :
    (Float.Model.pack (.finite s m e hm)).isFinite = true := by
  by_cases he : e ≤ 971
  · exact isFinite_pack he
  · change (UnpackedFloat.unpack .binary64 (UnpackedFloat.pack .binary64 _)).isInf = false at h
    rw [pack_finite, if_pos (by omega)] at h
    cases s <;> cases h

theorem unpack_normal {b : BitVec Float.Model.Format.binary64.numBits}
    (hinf : unpackExponent b ≠ -1#11) (hzero : unpackExponent b ≠ 0#11) :
    ∃ s m h, UnpackedFloat.unpack .binary64 b =
      .finite s m ((unpackExponent b).toNat - 1075) h ∧ m.log2 = 52 := by
  have hm : (1#1 ++ unpackMantissa b).toNat = 2 ^ 52 + (unpackMantissa b).toNat := by
    rw [BitVec.toNat_append, ← Nat.shiftLeft_add_eq_or_of_lt (unpackMantissa b).isLt]
    rfl
  have hlt : (unpackMantissa b).toNat < 2 ^ 52 := (unpackMantissa b).isLt
  unfold UnpackedFloat.unpack
  dsimp only
  rw [if_neg hinf, if_neg hzero]
  refine ⟨_, (1#1 ++ unpackMantissa b).toNat, by omega, rfl, ?_⟩
  rw [hm]
  exact (Nat.log2_eq_iff (by omega)).mpr ⟨by omega, by omega⟩

/-- What a finite number is unpacked to. -/
theorem unpack_of_isFinite {x : Float.Model} (h : x.isFinite = true) :
    (∃ s, x.unpack = .zero s) ∨
      ∃ s m e h, x.unpack = .finite s m e h ∧ e ≤ 971 ∧ totalExponent m e ≤ 1024 := by
  let b : BitVec Float.Model.Format.binary64.numBits := x.toBits.toBitVec
  have hinf : unpackExponent b ≠ -1#11 := isFinite_unpack.mp h
  have hfield : (unpackExponent b).toNat ≤ 2046 := by
    have hlt : (unpackExponent b).toNat < 2048 := (unpackExponent b).isLt
    have hne : (unpackExponent b).toNat ≠ 2047 := fun he => hinf (BitVec.eq_of_toNat_eq he)
    omega
  by_cases hzero : unpackExponent b = 0#11
  · show (∃ s, UnpackedFloat.unpack .binary64 b = _) ∨
      ∃ s m e h, UnpackedFloat.unpack .binary64 b = .finite s m e h ∧ _
    unfold UnpackedFloat.unpack
    dsimp only
    rw [if_neg hinf, if_pos hzero]
    split
    · exact .inl ⟨_, rfl⟩
    · rename_i hne
      have hpos : 0 < (unpackMantissa b).toNat :=
        Nat.pos_of_ne_zero fun he => hne (BitVec.eq_of_toNat_eq he)
      refine .inr ⟨_, _, _, hpos, rfl, ?_, ?_⟩
      all_goals
        rw [hzero]
      · decide
      · have hlog : (unpackMantissa b).toNat.log2 ≤ 51 := log2_le_of_lt (unpackMantissa b).isLt
        show ((unpackMantissa b).toNat.log2 + 1 + (0 - (1023 + 52) + 1) : Int) ≤ 1024
        omega
  · obtain ⟨s, m, h, heq, hlog⟩ := unpack_normal hinf hzero
    refine .inr ⟨s, m, _, h, heq, by omega, ?_⟩
    unfold totalExponent
    omega

/-- The exponent field of a number; 1024 is the field of the numbers from two to four. -/
def exponentField (x : Float) : Nat :=
  let b : BitVec Float.Model.Format.binary64.numBits := x.toModel.toBits.toBitVec
  (unpackExponent b).toNat

theorem isFinite_iff_exponentField {x : Float} : x.isFinite = true ↔ exponentField x ≠ 2047 := by
  show x.toModel.unpack.isFinite = true ↔ _
  rw [Float.Model.unpack, isFinite_unpack, not_iff_not, ← BitVec.toNat_inj]
  rfl

theorem unpack_of_exponentField {x : Float} (hlo : 1 ≤ exponentField x)
    (hhi : exponentField x ≤ 2046) :
    ∃ s m h, x.toModel.unpack = .finite s m (exponentField x - 1075) h ∧ m.log2 = 52 := by
  apply unpack_normal
  · intro h
    have hfield : exponentField x = 2047 := congrArg BitVec.toNat h
    omega
  · intro h
    have hfield : exponentField x = 0 := congrArg BitVec.toNat h
    omega

theorem exponentField_pack {s : Sign} {m : Nat} {e : Int} {hm : 0 < m} (hlog : m.log2 = 52)
    (hlo : -1074 ≤ e) (hhi : e ≤ 971) :
    exponentField (.ofModel (Float.Model.pack (.finite s m e hm))) = (e + 1075).toNat := by
  show (unpackExponent (UnpackedFloat.pack .binary64 (.finite s m e hm))).toNat = _
  rw [pack_finite, if_neg (by omega), if_pos hlog, unpackExponent_packComponents,
    BitVec.toNat_ofNat]
  apply Nat.mod_eq_of_lt
  show _ < 2048
  omega

/-! ## Operations -/

theorem isFinite_neg {x : Float} (h : x.isFinite = true) : (-x).isFinite = true := by
  apply isFinite_pack
  rcases unpack_of_isFinite h with ⟨s, hx⟩ | ⟨s, m, e, hm, hx, he, _⟩
  · rw [hx]
    trivial
  · rw [hx]
    exact he

theorem isFinite_signed {x : Float} (h : x.isFinite = true) (p : Prop) [Decidable p] :
    (if p then -x else x).isFinite = true := by
  split
  · exact isFinite_neg h
  · exact h

theorem isFinite_toFloat (n : UInt64) : n.toFloat.isFinite = true := by
  apply isFinite_pack
  have hlog : n.toNat.log2 ≤ 63 := log2_le_of_lt n.toNat_lt
  show Fits (UnpackedFloat.normalize .binary64 n.toNat 0 .positive)
  unfold UnpackedFloat.normalize
  split
  · rename_i h
    rw [Int.compare_eq_lt] at h
    omega
  · trivial
  · apply roundWithAccuracy_fits
    · show (0 : Int) - _ ≤ 971
      omega
    · have hshift := log2_shiftLeft_le n.toNat
        (0 - Float.Model.Format.binary64.targetExponent (totalExponent n.toNat 0)).toNat
      rw [Int.toNat_natCast]
      unfold totalExponent at hshift ⊢
      omega

theorem div_fits (s₁ s₂ : Sign) {m n : Nat} {e k : Int} (hm : 0 < m) (hn : 0 < n)
    (hu : totalExponent m e ≤ 1024) (hv : 2 ≤ totalExponent n k) :
    Fits (UnpackedFloat.div .binary64 (.finite s₁ m e hm) (.finite s₂ n k hn)) := by
  let t := min (e - k) (max (totalExponent m e - totalExponent n k - 53) (-1074))
  let shift := (e - k - t).toNat
  have hlog : (m <<< shift / n).log2 ≤ m.log2 + shift - n.log2 := by
    apply log2_le_of_lt
    apply Nat.div_lt_of_lt_mul
    have hshift := log2_shiftLeft_le m shift
    calc m <<< shift < 2 ^ ((m <<< shift).log2 + 1) := Nat.lt_log2_self
      _ ≤ 2 ^ (n.log2 + (m.log2 + shift - n.log2 + 1)) := by
        apply Nat.pow_le_pow_right (by decide)
        omega
      _ = 2 ^ n.log2 * 2 ^ (m.log2 + shift - n.log2 + 1) := pow_add ..
      _ ≤ n * 2 ^ (m.log2 + shift - n.log2 + 1) :=
        Nat.mul_le_mul_right _ (Nat.log2_self_le (by omega))
  unfold totalExponent at hu hv
  show Fits (roundWithAccuracy .binary64 _ (m <<< shift / n) t _)
  apply roundWithAccuracy_fits
  · show min (e - k) (max (totalExponent m e - totalExponent n k - 53) (-1074)) ≤ 971
    unfold totalExponent
    omega
  · show ((m <<< shift / n).log2 + 1 + t : Int) ≤ 1023
    have ht : t = min (e - k) (max (m.log2 + 1 + e - (n.log2 + 1 + k) - 53) (-1074)) := rfl
    have hs : shift = (e - k - t).toNat := rfl
    omega

/-- A quotient by a number that is not below two is finite. -/
theorem isFinite_div {x y : Float} (hx : x.isFinite = true) (hlo : 1024 ≤ exponentField y)
    (hhi : exponentField y ≤ 2046) : (x / y).isFinite = true := by
  apply isFinite_pack
  obtain ⟨s, n, hn, hy, hlog⟩ := unpack_of_exponentField (by omega) hhi
  rcases unpack_of_isFinite hx with ⟨s', hx⟩ | ⟨s', m, e, hm, hx, _, hm'⟩
  · rw [hx, hy]
    trivial
  · rw [hx, hy]
    apply div_fits _ _ _ _ hm'
    unfold totalExponent
    omega

/-- A product of finite numbers is finite unless it is infinite. -/
theorem isFinite_mul {x y : Float} (hx : x.isFinite = true) (hy : y.isFinite = true)
    (h : (x * y).isInf = false) : (x * y).isFinite = true := by
  change (Float.Model.pack (UnpackedFloat.mul .binary64 _ _)).isInf = false at h
  show (Float.Model.pack (UnpackedFloat.mul .binary64 _ _)).isFinite = true
  rcases unpack_of_isFinite hx with ⟨s₁, hx⟩ | ⟨s₁, m, e, hm, hx, _, _⟩
  · rcases unpack_of_isFinite hy with ⟨s₂, hy⟩ | ⟨s₂, n, k, hn, hy, _, _⟩
    · rw [hx, hy]
      exact isFinite_pack trivial
    · rw [hx, hy]
      exact isFinite_pack trivial
  · rcases unpack_of_isFinite hy with ⟨s₂, hy⟩ | ⟨s₂, n, k, hn, hy, _, _⟩
    · rw [hx, hy]
      exact isFinite_pack trivial
    · rw [hx, hy, UnpackedFloat.mul] at h ⊢
      obtain ⟨r, e', _, _, _, heq⟩ := roundWithAccuracy_eq (s₁ * s₂) (m * n) (e + k) .exact
      by_cases hzero : r >>> surplus r e' = 0
      · rw [heq, dif_pos hzero]
        exact isFinite_pack trivial
      · rw [heq, dif_neg hzero] at h ⊢
        exact isFinite_of_isInf_eq_false h

end QuantEnclosure.Binary64
