import QuantEnclosure.Proofs.Format.Quantizer
import QuantEnclosure.Proofs.Refusal

/-!
What the check of a configuration answers.  A format that is not valid has one fault (`HasFault`),
and a configuration that is not valid is refused with the fault of its first invalid role
(`validate_of_firstInvalid`).  There is one scaling that the check cannot look at: the least 32-bit
word has no negative, so a format of a good width with that scaling violates a precondition
(`validate_of_unnegatable`).
-/

namespace QuantEnclosure

namespace Format

/-- The fault of a format; the scaling counts only if the width is good. -/
inductive HasFault (f : Format) : Fault → Prop where
  | zeroWidth : f.bits.toNat = 0 → HasFault f .zeroWidth
  | tooWide : maxBits < f.bits.toNat → HasFault f (.tooWide f.bits.toNat)
  | scalingOutside : 1 ≤ f.bits.toNat → f.bits.toNat ≤ maxBits →
    (f.scaling.toInt < -(maxScaling : Int) ∨ (maxScaling : Int) < f.scaling.toInt) →
    HasFault f (.scalingOutside f.scaling.toInt)

theorem exists_hasFault {f : Format} : (∃ fault, f.HasFault fault) ↔ ¬ f.Valid := by
  constructor
  · rintro ⟨fault, h⟩ hv
    have h₁ := hv.bits_pos
    have h₂ := hv.bits_le
    have h₃ := hv.neg_le_scaling
    have h₄ := hv.scaling_le
    cases h with
    | zeroWidth h => omega
    | tooWide h => omega
    | scalingOutside _ _ h => omega
  · intro hv
    by_cases hzero : f.bits.toNat = 0
    · exact ⟨_, .zeroWidth hzero⟩
    · by_cases hwide : maxBits < f.bits.toNat
      · exact ⟨_, .tooWide hwide⟩
      · by_cases hs : f.scaling.toInt < -(maxScaling : Int) ∨ (maxScaling : Int) < f.scaling.toInt
        · exact ⟨_, .scalingOutside (by omega) (by omega) hs⟩
        · exact absurd ⟨by omega, by omega, by omega, by omega⟩ hv

/-- The width is good and the scaling is the 32-bit word without a negative. -/
structure Unnegatable (f : Format) : Prop where
  bits_pos : 1 ≤ f.bits.toNat
  bits_le : f.bits.toNat ≤ maxBits
  scaling_eq : f.scaling = Int32.minValue

theorem bits_eq_zero {f : Format} : f.bits = 0 ↔ f.bits.toNat = 0 :=
  ⟨fun h => by rw [h]; rfl, fun h => UInt32.toNat_inj.mp (by simpa using h)⟩

theorem fault?_of_unnegatable {f : Format} (h : f.Unnegatable) :
    f.fault? = violate .wordRange := by
  have hpos := h.bits_pos
  have hle := h.bits_le
  unfold fault?
  rw [if_neg (by rw [bits_eq_zero]; omega), if_neg (by omega), h.scaling_eq]
  rfl

/-- The fault of a format is found, if its scaling can be looked at. -/
theorem fault?_of_hasFault {f : Format} {fault : Fault} (h : f.HasFault fault)
    (hs : ¬ f.Unnegatable) : f.fault? = .ok (some fault) := by
  unfold fault?
  cases h with
  | zeroWidth hzero => rw [if_pos (bits_eq_zero.mpr hzero)]
  | tooWide hwide => rw [if_neg (by rw [bits_eq_zero]; omega), if_pos hwide]
  | scalingOutside hpos hle hout =>
    have hmin : f.scaling ≠ Int32.minValue := fun he => hs ⟨hpos, hle, he⟩
    have hzero : (0 : Int32).toInt = 0 := rfl
    rw [if_neg (by rw [bits_eq_zero]; omega), if_neg (by omega)]
    by_cases hneg : f.scaling < 0
    · rw [if_pos hneg, negated_eq_ok.mpr ⟨hmin, rfl⟩]
      rw [Int32.lt_iff_toInt_lt] at hneg
      show Except.ok (if _ then _ else _) = _
      rw [if_pos (by omega)]
    · rw [if_neg hneg]
      rw [Int32.lt_iff_toInt_lt] at hneg
      show Except.ok (if _ then _ else _) = _
      rw [if_pos (by omega)]

theorem validateAs_of_hasFault {f : Format} {fault : Fault} (h : f.HasFault fault)
    (hs : ¬ f.Unnegatable) (label : String) :
    f.validateAs label = refuse (.invalidConfig (label ++ fault.text)) := by
  rw [validateAs, fault?_of_hasFault h hs]
  rfl

theorem validateAs_of_unnegatable {f : Format} (h : f.Unnegatable) (label : String) :
    f.validateAs label = violate .wordRange := by
  rw [validateAs, fault?_of_unnegatable h]
  rfl

end Format

namespace Config

/-- The format of role `r` is not valid, and those of the roles before it are. -/
structure FirstInvalid (c : Config) (r : Role) : Prop where
  not_valid : ¬ (c.get r).Valid
  before_valid : ∃ before after, Role.all = before ++ r :: after ∧ ∀ q ∈ before, (c.get q).Valid

theorem valid_iff {c : Config} : c.Valid ↔ ∀ r ∈ Role.all, (c.get r).Valid := by
  constructor
  · intro h r _
    cases r with
    | input => exact h.input
    | weights => exact h.weights
    | biases => exact h.biases
    | activations => exact h.activations
  · intro h
    exact ⟨h .input (by decide), h .weights (by decide), h .biases (by decide),
      h .activations (by decide)⟩

/-- A configuration that is not valid has a first invalid role. -/
theorem exists_firstInvalid {c : Config} (h : ¬ c.Valid) : ∃ r, c.FirstInvalid r := by
  classical
  rw [valid_iff] at h
  cases hfind : Role.all.find? fun r => decide ¬ (c.get r).Valid with
  | none =>
    rw [List.find?_eq_none] at hfind
    exact absurd (fun r hr => by simpa using hfind r hr) h
  | some r =>
    obtain ⟨hr, before, after, hall, hbefore⟩ := List.find?_eq_some_iff_append.mp hfind
    exact ⟨r, ⟨by simpa using hr, before, after, hall, fun q hq => by simpa using hbefore q hq⟩⟩

/-- The check of a configuration ends where the check of its first invalid role does. -/
theorem validate_eq_of_firstInvalid {c : Config} {r : Role} (h : c.FirstInvalid r) {e : Failure}
    (hr : (c.get r).validateAs (r.name ++ ": ") = .error e) : c.validate = .error e := by
  obtain ⟨before, after, hall, hbefore⟩ := h.before_valid
  rw [validate, hall]
  clear hall
  induction before with
  | nil => exact bind_eq_error.mpr (Or.inl hr)
  | cons q before ih =>
    have hq : (c.get q).validateAs (q.name ++ ": ") = .ok () :=
      Format.validateAs_eq_ok.mpr (hbefore q (List.mem_cons_self ..))
    exact bind_eq_error.mpr (Or.inr ⟨(), hq, ih fun p hp => hbefore p (List.mem_cons_of_mem _ hp)⟩)

/-- The message names the first invalid role and its fault. -/
theorem validate_of_firstInvalid {c : Config} {r : Role} (h : c.FirstInvalid r)
    {fault : Format.Fault} (hf : (c.get r).HasFault fault) (hs : ¬ (c.get r).Unnegatable) :
    c.validate = refuse (.invalidConfig (r.name ++ ": " ++ fault.text)) :=
  validate_eq_of_firstInvalid h (Format.validateAs_of_hasFault hf hs _)

theorem validate_of_unnegatable {c : Config} {r : Role} (h : c.FirstInvalid r)
    (hs : (c.get r).Unnegatable) : c.validate = violate .wordRange :=
  validate_eq_of_firstInvalid h (Format.validateAs_of_unnegatable hs _)

/-- Whatever is refused about a configuration, the message begins with the name of a role. -/
theorem validate_refuses_role (c : Config) :
    RefusesOnly (fun e => ∃ (r : Role) (text : String), e = .invalidConfig (r.name ++ ": " ++ text))
      c.validate := by
  intro e he
  have hv : ¬ c.Valid := by
    intro hv
    rw [validate_eq_ok.mpr hv] at he
    cases he
  obtain ⟨r, hr⟩ := exists_firstInvalid hv
  by_cases hs : (c.get r).Unnegatable
  · rw [validate_of_unnegatable hr hs] at he
    cases he
  · obtain ⟨fault, hf⟩ := Format.exists_hasFault.mpr hr.not_valid
    rw [validate_of_firstInvalid hr hf hs] at he
    cases he
    exact ⟨r, fault.text, rfl⟩

end Config

end QuantEnclosure
