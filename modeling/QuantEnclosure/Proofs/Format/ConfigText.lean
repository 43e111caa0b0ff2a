import QuantEnclosure.Format.ConfigText
import QuantEnclosure.Proofs.Format.Validation
import QuantEnclosure.Proofs.Json.RoundTrip

/-!
Reading a configuration from its own text.  The text of any configuration, valid or not, has the
tree `Config.doc` (`Config.reads_toJson`), and that tree is read as the configuration
(`Config.read_doc`); so only the check of the formats is left to decide (`ofText_toText`).
-/

namespace QuantEnclosure

open Json

namespace Json

/-- One more field of a record, read without a fault. -/
theorem Schema.readFields_required {σ β : Type} {s : Schema Doc σ} {name : String}
    {content : Doc → Decoded β} {set : σ → β → σ} {seen : List String} {d : Doc} {b : β} (r : σ)
    (rest : List (List Nat × Doc)) (hf : s.field? name = some (.required name content set))
    (hseen : seen.contains name = false) (hread : content d = .ok b) :
    s.readFields seen r ((unitsOf name, d) :: rest) =
      s.readFields (name :: seen) (set r b) rest := by
  have hfield : (Field.required name content set).read d r = .ok (set r b) := by
    simp [Field.required, hread, Except.map]
  rw [readFields, string?_unitsOf]
  dsimp only
  rw [hf]
  dsimp only
  rw [hseen, hfield]
  rfl

/-- An integer that lies within the limits of a word is read as itself. -/
theorem Doc.integer_ofInt {low high i : Int} (expected : String)
    (hlow : -9223372036854775808 ≤ low) (hhigh : high ≤ 18446744073709551615) (hl : low ≤ i)
    (hu : i ≤ high) : (Doc.number (.ofInt i)).integer low high expected = .ok i := by
  rw [Doc.integer, Doc.readNumber, Numeral.value?_ofInt (hlow.trans hl) (hu.trans hhigh)]
  exact if_pos ⟨hl, hu⟩

end Json

/-! ## Formats -/

namespace Format

def doc (f : Format) : Doc :=
  .object
    [ (unitsOf "strategy", .string (unitsOf f.strategy.name)),
      (unitsOf "bits", .number (.ofInt f.bits.toNat)),
      (unitsOf "scaling", .number (.ofInt f.scaling.toInt)) ] true

theorem reads_toJson (f : Format) : f.toJson.Reads f.doc :=
  Value.reads_object (.cons ⟨rfl, Value.reads_string _⟩ (.cons ⟨rfl, Value.reads_int _⟩
    (.cons ⟨rfl, Value.reads_int _⟩ .nil)))

theorem variant_strategy (s : Strategy) :
    Doc.variant Strategy.variants (.string (unitsOf s.name)) = .ok s := by
  rw [Doc.variant, Variants.read, string?_unitsOf]
  cases s <;> rfl

/-- Every format is read back from its tree, whatever its width and its scaling. -/
theorem read_doc (f : Format) : schema.read f.doc = .ok f := by
  have hbits : (Doc.number (.ofInt f.bits.toNat)).integer 0 4294967295 "u32" =
      .ok (f.bits.toNat : Int) := by
    have := f.bits.toNat_lt
    exact Doc.integer_ofInt "u32" (by decide) (by decide) (by omega) (by omega)
  have hscaling : (Doc.number (.ofInt f.scaling.toInt)).integer (-2147483648) 2147483647 "i32" =
      .ok f.scaling.toInt :=
    Doc.integer_ofInt "i32" (by decide) (by decide) f.scaling.minValue_le_toInt
      f.scaling.toInt_le
  have hfields : schema.readFields [] schema.initial
      [ (unitsOf "strategy", .string (unitsOf f.strategy.name)),
        (unitsOf "bits", .number (.ofInt f.bits.toNat)),
        (unitsOf "scaling", .number (.ofInt f.scaling.toInt)) ] =
      .ok (["scaling", "bits", "strategy"], f) := by
    rw [Schema.readFields_required _ _ rfl rfl (variant_strategy _),
      Schema.readFields_required _ _ rfl rfl hbits,
      Schema.readFields_required _ _ rfl rfl hscaling, Schema.readFields]
    simp
  rw [doc, Schema.read, hfields]
  rfl

end Format

/-! ## Configurations -/

namespace Config

def doc (c : Config) : Doc :=
  .object (Role.all.map fun r => (unitsOf r.name, (c.get r).doc)) true

theorem reads_toJson (c : Config) : c.toJson.Reads c.doc := by
  apply Value.reads_object
  rw [List.forall₂_map_left_iff, List.forall₂_map_right_iff]
  exact List.forall₂_same.mpr fun r _ => ⟨rfl, (c.get r).reads_toJson⟩

theorem read_doc (c : Config) : schema.read c.doc = .ok c := by
  have hfields : schema.readFields [] schema.initial
      (Role.all.map fun r => (unitsOf r.name, (c.get r).doc)) =
      .ok (["activations", "biases", "weights", "input"], c) := by
    simp only [Role.all, List.map_cons, List.map_nil]
    rw [Schema.readFields_required _ _ rfl rfl (Format.read_doc _),
      Schema.readFields_required _ _ rfl rfl (Format.read_doc _),
      Schema.readFields_required _ _ rfl rfl (Format.read_doc _),
      Schema.readFields_required _ _ rfl rfl (Format.read_doc _), Schema.readFields]
    rfl
  rw [doc, Schema.read, hfields]
  rfl

theorem readText_toText (c : Config) : schema.readText c.toText = .ok c := by
  rw [Schema.readText, toText, c.reads_toJson.ofText]
  dsimp only
  rw [read_doc]
  rfl

/-- After its text has been read, a configuration is checked like any other. -/
theorem ofText_toText_eq (c : Config) : ofText c.toText = c.validate.map fun _ => c := by
  rw [ofText, readText_toText]
  dsimp only
  cases c.validate <;> rfl

/-- Reading a configuration from its own text is checking it and giving it back.  A valid one comes
back as it was; any other is refused with the name of its first invalid role and the fault of that
role's format, unless that fault is the one scaling whose negative is no 32-bit word. -/
theorem ofText_toText (c : Config) :
    ofText c.toText = c.validate.map (fun _ => c) ∧
    (c.Valid → ofText c.toText = .ok c) ∧
    (¬ c.Valid → ∃ r fault, c.FirstInvalid r ∧ (c.get r).HasFault fault ∧
      (¬ (c.get r).Unnegatable →
        ofText c.toText = refuse (.invalidConfig (r.name ++ ": " ++ fault.text))) ∧
      ((c.get r).Unnegatable → ofText c.toText = violate .wordRange)) := by
  refine ⟨c.ofText_toText_eq, fun hv => ?_, fun hv => ?_⟩
  · rw [ofText_toText_eq, validate_eq_ok.mpr hv]
    rfl
  · obtain ⟨r, hr⟩ := exists_firstInvalid hv
    obtain ⟨fault, hf⟩ := Format.exists_hasFault.mpr hr.not_valid
    refine ⟨r, fault, hr, hf, fun hs => ?_, fun hs => ?_⟩
    · rw [ofText_toText_eq, validate_of_firstInvalid hr hf hs]
      rfl
    · rw [ofText_toText_eq, validate_of_unnegatable hr hs]
      rfl

/-- The weights have no bits, and the scaling of the biases is out of range too. -/
def lateFaults : Config :=
  { standard with weights := ⟨.symmetric, 0, 8⟩, biases := ⟨.symmetric, 10, 70⟩ }

theorem lateFaults_refused :
    ¬ lateFaults.Valid ∧
      (∃ r fault, lateFaults.FirstInvalid r ∧ (lateFaults.get r).HasFault fault ∧
        ofText lateFaults.toText = refuse (.invalidConfig (r.name ++ ": " ++ fault.text))) ∧
      ofText lateFaults.toText =
        refuse (.invalidConfig "weights: bit width must be at least 1") := by
  obtain ⟨heq, _, hinvalid⟩ := ofText_toText lateFaults
  have hv : ¬ lateFaults.Valid := fun h => absurd h.weights.bits_pos (by decide)
  have hs (r : Role) : ¬ (lateFaults.get r).Unnegatable := by
    intro h
    cases r <;> exact absurd h.scaling_eq (by decide)
  obtain ⟨r, fault, hr, hf, hrefused, _⟩ := hinvalid hv
  exact ⟨hv, ⟨r, fault, hr, hf, hrefused (hs r)⟩, heq.trans rfl⟩

end Config

end QuantEnclosure
