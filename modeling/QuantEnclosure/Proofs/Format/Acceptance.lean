import QuantEnclosure.Proofs.Format.ConfigText

/-!
Which words make a format and which texts make a configuration.  A format is accepted exactly if its
width and its scaling lie in their ranges, a text exactly if it can be read and all four formats are
of this kind; everything else is refused as an invalid configuration.  The one exception is a format
of a good width whose scaling is the least 32-bit word: there the check itself has no answer
(`ofParts_of_unnegatable`, `ofText_of_overflows`).
-/

namespace QuantEnclosure

namespace Format

/-- The ranges of a valid format. -/
theorem valid_iff_range {f : Format} :
    f.Valid ↔ 1 ≤ f.bits.toNat ∧ f.bits.toNat ≤ 52 ∧ -64 ≤ f.scaling.toInt ∧
      f.scaling.toInt ≤ 64 :=
  ⟨fun h => ⟨h.bits_pos, h.bits_le, h.neg_le_scaling, h.scaling_le⟩,
    fun ⟨h₁, h₂, h₃, h₄⟩ => ⟨h₁, h₂, h₃, h₄⟩⟩

theorem ofParts_eq_ok {strategy : Strategy} {bits : UInt32} {scaling : Int32} :
    ofParts strategy bits scaling = .ok ⟨strategy, bits, scaling⟩ ↔
      (⟨strategy, bits, scaling⟩ : Format).Valid := by
  constructor
  · intro h
    obtain ⟨_, hv, _⟩ := bind_eq_ok.mp h
    exact validateAs_eq_ok.mp hv
  · intro hv
    exact bind_eq_ok.mpr ⟨(), validateAs_eq_ok.mpr hv, rfl⟩

/-- What is not valid is refused for its fault, if its scaling can be looked at. -/
theorem ofParts_of_not_valid {strategy : Strategy} {bits : UInt32} {scaling : Int32}
    (hv : ¬ (⟨strategy, bits, scaling⟩ : Format).Valid)
    (hs : ¬ (⟨strategy, bits, scaling⟩ : Format).Unnegatable) :
    ∃ reason, ofParts strategy bits scaling = refuse (.invalidConfig reason) := by
  obtain ⟨fault, hf⟩ := exists_hasFault.mpr hv
  exact ⟨_, bind_eq_error.mpr (Or.inl (validateAs_of_hasFault hf hs ""))⟩

theorem ofParts_of_unnegatable {strategy : Strategy} {bits : UInt32} {scaling : Int32}
    (hs : (⟨strategy, bits, scaling⟩ : Format).Unnegatable) :
    ofParts strategy bits scaling = violate .wordRange :=
  bind_eq_error.mpr (Or.inl (validateAs_of_unnegatable hs ""))

end Format

namespace Config

theorem valid_iff_range {c : Config} :
    c.Valid ↔ ∀ r, 1 ≤ (c.get r).bits.toNat ∧ (c.get r).bits.toNat ≤ 52 ∧
      -64 ≤ (c.get r).scaling.toInt ∧ (c.get r).scaling.toInt ≤ 64 := by
  rw [valid_iff]
  constructor
  · intro h r
    exact Format.valid_iff_range.mp (h r (by cases r <;> decide))
  · intro h r _
    exact Format.valid_iff_range.mpr (h r)

/-- A text that can be read gives what the check of the configuration gives. -/
theorem ofText_of_readText {text : String} {c : Config} (h : schema.readText text = .ok c) :
    ofText text = c.validate.map fun _ => c := by
  rw [ofText, h]
  dsimp only
  cases c.validate <;> rfl

theorem ofText_eq_ok {text : String} {c : Config} :
    ofText text = .ok c ↔ schema.readText text = .ok c ∧ c.Valid := by
  cases hread : schema.readText text with
  | error fault => simp [ofText, hread, refuse]
  | ok d =>
    rw [ofText_of_readText hread, ← validate_eq_ok]
    cases hv : d.validate with
    | error f =>
      constructor
      · intro h
        cases h
      · rintro ⟨h, hc⟩
        cases h
        cases hv.symm.trans hc
    | ok u =>
      constructor
      · intro h
        cases h
        exact ⟨rfl, hv⟩
      · rintro ⟨h, _⟩
        cases h
        rfl

/-- The text can be read, and the first invalid role has a scaling without a negative. -/
def Overflows (text : String) : Prop :=
  ∃ c r, schema.readText text = .ok c ∧ c.FirstInvalid r ∧ (c.get r).Unnegatable

theorem ofText_of_overflows {text : String} (h : Overflows text) :
    ofText text = violate .wordRange := by
  obtain ⟨c, r, hread, hr, hs⟩ := h
  rw [ofText_of_readText hread, validate_of_unnegatable hr hs]
  rfl

/-- Apart from that scaling, a text is refused if it does not give a valid configuration. -/
theorem ofText_of_not_overflows {text : String} (h : ¬ Overflows text) :
    (∃ c, ofText text = .ok c) ∨ ∃ reason, ofText text = refuse (.invalidConfig reason) := by
  cases hread : schema.readText text with
  | error fault => exact .inr ⟨_, by rw [ofText, hread]⟩
  | ok c =>
    by_cases hv : c.Valid
    · exact .inl ⟨c, ofText_eq_ok.mpr ⟨hread, hv⟩⟩
    · obtain ⟨r, hr⟩ := exists_firstInvalid hv
      obtain ⟨fault, hf⟩ := Format.exists_hasFault.mpr hr.not_valid
      have hs : ¬ (c.get r).Unnegatable := fun hs => h ⟨c, r, hread, hr, hs⟩
      right
      rw [ofText_of_readText hread, validate_of_firstInvalid hr hf hs]
      exact ⟨_, rfl⟩

/-- A text gives a configuration exactly if it can be read and every role has a width from 1 to 52
and a scaling from -64 to 64, and words make a format exactly if they lie in these ranges.  All else
is refused as an invalid configuration, up to the one scaling that has no negative: with it, a
format of a good width is neither accepted nor refused. -/
theorem acceptance_exact (text : String) (strategy : Strategy) (bits : UInt32) (scaling : Int32) :
    (∀ c, ofText text = .ok c ↔ schema.readText text = .ok c ∧ ∀ r,
      1 ≤ (c.get r).bits.toNat ∧ (c.get r).bits.toNat ≤ 52 ∧
        -64 ≤ (c.get r).scaling.toInt ∧ (c.get r).scaling.toInt ≤ 64) ∧
    (¬ Overflows text →
      (∃ c, ofText text = .ok c) ∨ ∃ reason, ofText text = refuse (.invalidConfig reason)) ∧
    (Overflows text → ofText text = violate .wordRange) ∧
    (Format.ofParts strategy bits scaling = .ok ⟨strategy, bits, scaling⟩ ↔
      1 ≤ bits.toNat ∧ bits.toNat ≤ 52 ∧ -64 ≤ scaling.toInt ∧ scaling.toInt ≤ 64) ∧
    (¬ (1 ≤ bits.toNat ∧ bits.toNat ≤ 52 ∧ -64 ≤ scaling.toInt ∧ scaling.toInt ≤ 64) →
      ¬ (1 ≤ bits.toNat ∧ bits.toNat ≤ 52 ∧ scaling = Int32.minValue) →
      ∃ reason, Format.ofParts strategy bits scaling = refuse (.invalidConfig reason)) ∧
    (1 ≤ bits.toNat ∧ bits.toNat ≤ 52 ∧ scaling = Int32.minValue →
      Format.ofParts strategy bits scaling = violate .wordRange) := by
  refine ⟨fun c => ?_, ofText_of_not_overflows, ofText_of_overflows, ?_, fun hv hs => ?_,
    fun hs => ?_⟩
  · rw [ofText_eq_ok, valid_iff_range]
  · rw [Format.ofParts_eq_ok, Format.valid_iff_range]
  · refine Format.ofParts_of_not_valid ?_ fun h => hs ⟨h.bits_pos, h.bits_le, h.scaling_eq⟩
    rw [Format.valid_iff_range]
    exact hv
  · exact Format.ofParts_of_unnegatable ⟨hs.1, hs.2.1, hs.2.2⟩

/-- A text without formats is refused, and so is a format that is too wide; a good width with the
least scaling has no answer. -/
theorem withoutFormats_refused :
    ¬ Overflows "[]" ∧
      (∃ reason, ofText "[]" = refuse (.invalidConfig reason)) ∧
      (∃ reason, Format.ofParts .symmetric 53 8 = refuse (.invalidConfig reason)) ∧
      Format.ofParts .symmetric 8 Int32.minValue = violate .wordRange := by
  have hread : schema.readText "[]" = .error .malformed := rfl
  have hnone : ¬ Overflows "[]" := by
    rintro ⟨c, r, h, _, _⟩
    cases hread.symm.trans h
  obtain ⟨_, htext, _, _, hwide, _⟩ := acceptance_exact "[]" .symmetric 53 8
  obtain ⟨_, _, _, _, _, hleast⟩ := acceptance_exact "[]" .symmetric 8 Int32.minValue
  refine ⟨hnone, ?_, hwide (by decide) (by decide), hleast (by decide)⟩
  rcases htext hnone with ⟨c, hc⟩ | h
  · cases hread.symm.trans (ofText_eq_ok.mp hc).1
  · exact h

end Config

end QuantEnclosure
