import QuantEnclosure.Network.Loader
import QuantEnclosure.Proofs.Json.Values
import QuantEnclosure.Proofs.Outcome

/-!
How a layer is written in JSON.  `Writes` says it without the reader: as an object that has the
weights and the biases under their names, or as a list of the two; in both an activation can
follow.  The reader accepts exactly these values (`ofValue_eq_ok`), in whatever order the fields of
the object come, and what it reads is finite.
-/

namespace QuantEnclosure

open Json

namespace LayerEntry

/-! ## Written entries -/

def IsNumber (v : Value) (x : Float) : Prop := ∃ n, v = .number n ∧ n.toFloat = x

def IsList {β : Type} (P : Value → β → Prop) (v : Value) (xs : List β) : Prop :=
  ∃ items, v = .array items ∧ List.Forall₂ P items xs

/-- The name of an activation, or null for none. -/
inductive IsActivation : Value → Option String → Prop
  | null : IsActivation .null none
  | name (text : String) : IsActivation (.string text) (some text)

/-- The value `v` is a way to write the entry `e`. -/
inductive Writes : Value → LayerEntry → Prop
  | fields {fields : List (String × Value)} {e : LayerEntry} {w b : Value}
      (weights : fields.lookup "weights" = some w) (columns : IsList (IsList IsNumber) w e.columns)
      (bias : fields.lookup "biases" = some b) (biases : IsList IsNumber b e.biases)
      (absent : fields.lookup "activation" = none → e.activation = none)
      (present : ∀ a, fields.lookup "activation" = some a → IsActivation a e.activation) :
      Writes (.object fields) e
  | pair {w b : Value} {e : LayerEntry} (columns : IsList (IsList IsNumber) w e.columns)
      (biases : IsList IsNumber b e.biases) (absent : e.activation = none) :
      Writes (.array [w, b]) e
  | triple {w b a : Value} {e : LayerEntry} (columns : IsList (IsList IsNumber) w e.columns)
      (biases : IsList IsNumber b e.biases) (present : IsActivation a e.activation) :
      Writes (.array [w, b, a]) e

/-! ## Parts of an entry -/

theorem real_eq_ok {v : Value} {x : Float} : v.real = .ok x ↔ IsNumber v x := by
  unfold Value.real
  rw [bind_eq_ok]
  constructor
  · rintro ⟨n, hn, hx⟩
    cases v with
    | number _ =>
      cases hn
      exact ⟨n, rfl, Except.ok.inj hx⟩
    | _ => cases hn
  · rintro ⟨n, rfl, rfl⟩
    exact ⟨n, rfl, rfl⟩

theorem readList_eq_ok {β : Type} {read : Value → Decoded β} {P : Value → β → Prop}
    (h : ∀ v x, read v = .ok x ↔ P v x) {v : Value} {xs : List β} :
    readList read v = .ok xs ↔ IsList P v xs := by
  constructor
  · intro hread
    cases v with
    | array items =>
      refine ⟨items, rfl, ?_⟩
      exact (mapM_eq_ok.mp hread).imp fun w x => (h w x).mp
    | _ => cases hread
  · rintro ⟨items, rfl, hitems⟩
    exact mapM_eq_ok.mpr (hitems.imp fun w x => (h w x).mpr)

theorem numbers_eq_ok {v : Value} {xs : List Float} :
    readList Value.real v = .ok xs ↔ IsList IsNumber v xs :=
  readList_eq_ok fun _ _ => real_eq_ok

theorem columns_eq_ok {v : Value} {xs : List (List Float)} :
    readList (readList Value.real) v = .ok xs ↔ IsList (IsList IsNumber) v xs :=
  readList_eq_ok fun _ _ => numbers_eq_ok

theorem readActivation_eq_ok {v : Value} {a : Option String} :
    readActivation v = .ok a ↔ IsActivation v a := by
  constructor
  · intro h
    cases v with
    | null =>
      cases h
      exact .null
    | string s =>
      cases h
      exact .name s
    | _ => cases h
  · intro h
    cases h <;> rfl

/-! ## Fields in any order -/

/-- What the fields leave under `key`: what is written there, or what was there before. -/
def Leaves {β : Type} (fields : List (String × Value)) (key : String) (P : Value → β → Prop)
    (before after : β) : Prop :=
  match fields.lookup key with
  | none => after = before
  | some v => P v after

section

variable {β : Type} {fields : List (String × Value)} {key : String} {P : Value → β → Prop}
  {before after : β}

theorem mem_keys_iff : key ∈ fields.map Prod.fst ↔ ∃ v, fields.lookup key = some v := by
  rw [← Option.isSome_iff_exists, List.lookup_isSome_iff, List.mem_map]
  simp only [beq_iff_eq, @eq_comm _ key]

theorem leaves_of_not_mem (h : key ∉ fields.map Prod.fst) :
    Leaves fields key P before after ↔ after = before := by
  have hnone : fields.lookup key = none :=
    Option.eq_none_iff_forall_ne_some.mpr fun v hv => h (mem_keys_iff.mpr ⟨v, hv⟩)
  rw [Leaves, hnone]

theorem leaves_cons_self {v : Value} :
    Leaves ((key, v) :: fields) key P before after ↔ P v after := by
  rw [Leaves, List.lookup_cons_self]

theorem leaves_cons_of_ne {name : String} {v : Value} (h : name ≠ key) :
    Leaves ((name, v) :: fields) key P before after ↔ Leaves fields key P before after := by
  have hbeq : (key == name) = false := beq_false_of_ne h.symm
  rw [Leaves, Leaves, List.lookup_cons, hbeq]

end

theorem field?_eq_none {name : String} (hw : name ≠ "weights") (hb : name ≠ "biases")
    (ha : name ≠ "activation") : schema.field? name = none := by
  simp [Schema.field?, schema, Field.required, Field.optional, hw.symm, hb.symm, ha.symm]

theorem readEntries_weights (seen : List String) (r : LayerEntry) (v : Value)
    (rest : List (String × Value)) :
    schema.readEntries seen r (("weights", v) :: rest) = (readList (readList Value.real) v >>=
      fun w => schema.readEntries ("weights" :: seen) { r with columns := w } rest) := by
  show ((readList (readList Value.real) v).map _ >>= _) = _
  cases readList (readList Value.real) v <;> rfl

theorem readEntries_biases (seen : List String) (r : LayerEntry) (v : Value)
    (rest : List (String × Value)) :
    schema.readEntries seen r (("biases", v) :: rest) = (readList Value.real v >>=
      fun b => schema.readEntries ("biases" :: seen) { r with biases := b } rest) := by
  show ((readList Value.real v).map _ >>= _) = _
  cases readList Value.real v <;> rfl

theorem readEntries_activation (seen : List String) (r : LayerEntry) (v : Value)
    (rest : List (String × Value)) :
    schema.readEntries seen r (("activation", v) :: rest) = (readActivation v >>=
      fun a => schema.readEntries ("activation" :: seen) { r with activation := a } rest) := by
  show ((readActivation v).map _ >>= _) = _
  cases readActivation v <;> rfl

theorem readEntries_other {name : String} (h : schema.field? name = none) (seen : List String)
    (r : LayerEntry) (v : Value) (rest : List (String × Value)) :
    schema.readEntries seen r ((name, v) :: rest) = schema.readEntries seen r rest := by
  rw [Schema.readEntries, h]

theorem exists_bind_eq_ok {β : Type} {x : Decoded β}
    {f : β → Decoded (List String × LayerEntry)} {e : LayerEntry} :
    (∃ names, (x >>= f) = .ok (names, e)) ↔ ∃ b, x = .ok b ∧ ∃ names, f b = .ok (names, e) := by
  simp only [bind_eq_ok]
  exact ⟨fun ⟨names, b, hb, h⟩ => ⟨b, hb, names, h⟩, fun ⟨b, hb, names, h⟩ => ⟨names, b, hb, h⟩⟩

/-- Fields with distinct names are read in any order. -/
theorem readEntries_eq_ok {fields : List (String × Value)} (hkeys : (fields.map Prod.fst).Nodup)
    {seen : List String} {r e : LayerEntry} :
    (∃ names, schema.readEntries seen r fields = .ok (names, e)) ↔
      Leaves fields "weights" (IsList (IsList IsNumber)) r.columns e.columns ∧
      Leaves fields "biases" (IsList IsNumber) r.biases e.biases ∧
      Leaves fields "activation" IsActivation r.activation e.activation := by
  induction fields generalizing seen r with
  | nil =>
    constructor
    · rintro ⟨names, h⟩
      cases h
      exact ⟨rfl, rfl, rfl⟩
    · rintro ⟨hw, hb, ha⟩
      refine ⟨seen, ?_⟩
      cases e
      cases r
      cases hw
      cases hb
      cases ha
      rfl
  | cons p rest ih =>
    obtain ⟨name, v⟩ := p
    obtain ⟨hname, hrest⟩ := List.nodup_cons.mp hkeys
    by_cases hw : name = "weights"
    · subst hw
      rw [readEntries_weights, exists_bind_eq_ok, leaves_cons_self, leaves_cons_of_ne (by decide),
        leaves_cons_of_ne (by decide)]
      simp only [columns_eq_ok, ih hrest, leaves_of_not_mem hname]
      exact ⟨fun ⟨w, hv, he, hb, ha⟩ => ⟨he ▸ hv, hb, ha⟩, fun ⟨hv, hb, ha⟩ => ⟨_, hv, rfl, hb, ha⟩⟩
    by_cases hb : name = "biases"
    · subst hb
      rw [readEntries_biases, exists_bind_eq_ok, leaves_cons_self, leaves_cons_of_ne (by decide),
        leaves_cons_of_ne (by decide)]
      simp only [numbers_eq_ok, ih hrest, leaves_of_not_mem hname]
      exact ⟨fun ⟨b, hv, hw, he, ha⟩ => ⟨hw, he ▸ hv, ha⟩, fun ⟨hw, hv, ha⟩ => ⟨_, hv, hw, rfl, ha⟩⟩
    by_cases ha : name = "activation"
    · subst ha
      rw [readEntries_activation, exists_bind_eq_ok, leaves_cons_self,
        leaves_cons_of_ne (by decide), leaves_cons_of_ne (by decide)]
      simp only [readActivation_eq_ok, ih hrest, leaves_of_not_mem hname]
      exact ⟨fun ⟨a, hv, hw, hb, he⟩ => ⟨hw, hb, he ▸ hv⟩, fun ⟨hw, hb, hv⟩ => ⟨_, hv, hw, hb, rfl⟩⟩
    · rw [readEntries_other (field?_eq_none hw hb ha), leaves_cons_of_ne hw, leaves_cons_of_ne hb,
        leaves_cons_of_ne ha]
      exact ih hrest

/-! ## Required fields -/

theorem mem_of_readEntries {fields : List (String × Value)} {seen names : List String}
    {r e : LayerEntry} (h : schema.readEntries seen r fields = .ok (names, e)) {name : String}
    (hname : schema.field? name ≠ none) :
    name ∈ names ↔ name ∈ seen ∨ name ∈ fields.map Prod.fst := by
  induction fields generalizing seen r with
  | nil =>
    cases h
    simp
  | cons p rest ih =>
    obtain ⟨key, v⟩ := p
    rw [Schema.readEntries] at h
    split at h
    · rename_i hkey
      have hne : name ≠ key := fun heq => hname (heq ▸ hkey)
      simp [ih h, hne]
    · obtain ⟨r', _, h⟩ := bind_eq_ok.mp h
      rw [ih h]
      simp only [List.mem_cons, List.map_cons]
      tauto

/-- A record is complete if its required fields were seen. -/
theorem complete_eq_ok {names : List String} {e d : LayerEntry} :
    schema.complete names e = .ok d ↔ "weights" ∈ names ∧ "biases" ∈ names ∧ e = d := by
  unfold Schema.complete schema
  by_cases hw : "weights" ∈ names <;> by_cases hb : "biases" ∈ names <;>
    simp [Field.required, Field.optional, List.find?, hw, hb]

/-! ## The reader -/

theorem ofValue_object {fields : List (String × Value)} (hkeys : (fields.map Prod.fst).Nodup)
    {e : LayerEntry} : ofValue (.object fields) = .ok e ↔ Writes (.object fields) e := by
  show (schema.readEntries [] schema.initial fields >>= fun p =>
    schema.complete p.1 p.2) = .ok e ↔ _
  rw [bind_eq_ok]
  constructor
  · rintro ⟨⟨names, d⟩, hread, hcomplete⟩
    obtain ⟨hw, hb, rfl⟩ := complete_eq_ok.mp hcomplete
    rw [mem_of_readEntries hread (by decide)] at hw hb
    obtain ⟨w, hw⟩ := mem_keys_iff.mp (hw.resolve_left List.not_mem_nil)
    obtain ⟨b, hb⟩ := mem_keys_iff.mp (hb.resolve_left List.not_mem_nil)
    obtain ⟨hcolumns, hbiases, hactivation⟩ := (readEntries_eq_ok hkeys).mp ⟨names, hread⟩
    rw [Leaves, hw] at hcolumns
    rw [Leaves, hb] at hbiases
    refine .fields hw hcolumns hb hbiases (fun h => ?_) fun a h => ?_
    · rw [Leaves, h] at hactivation
      exact hactivation
    · rw [Leaves, h] at hactivation
      exact hactivation
  · intro h
    cases h with
    | @fields _ _ w b hw hcolumns hb hbiases habsent hpresent =>
      have hactivation : Leaves fields "activation" IsActivation none e.activation := by
        unfold Leaves
        split
        · exact habsent ‹_›
        · exact hpresent _ ‹_›
      obtain ⟨names, hread⟩ : ∃ names,
          schema.readEntries [] schema.initial fields = .ok (names, e) :=
        (readEntries_eq_ok hkeys).mpr ⟨by rwa [Leaves, hw], by rwa [Leaves, hb], hactivation⟩
      refine ⟨⟨names, e⟩, hread, complete_eq_ok.mpr ⟨?_, ?_, rfl⟩⟩
      · exact (mem_of_readEntries hread (by decide)).mpr (.inr (mem_keys_iff.mpr ⟨w, hw⟩))
      · exact (mem_of_readEntries hread (by decide)).mpr (.inr (mem_keys_iff.mpr ⟨b, hb⟩))

theorem ofValue_pair (w b : Value) :
    ofValue (.array [w, b]) = (readList (readList Value.real) w >>= fun columns =>
      readList Value.real b >>= fun biases => .ok ⟨columns, biases, none⟩) := by
  show ((readList (readList Value.real) w).map _ >>= fun r =>
    (readList Value.real b).map _ >>= _) = _
  cases readList (readList Value.real) w with
  | error _ => rfl
  | ok _ => cases readList Value.real b <;> rfl

theorem ofValue_triple (w b a : Value) :
    ofValue (.array [w, b, a]) = (readList (readList Value.real) w >>= fun columns =>
      readList Value.real b >>= fun biases =>
        readActivation a >>= fun activation => .ok ⟨columns, biases, activation⟩) := by
  show ((readList (readList Value.real) w).map _ >>= fun r => (readList Value.real b).map _ >>=
    fun r => (readActivation a).map _ >>= _) = _
  cases readList (readList Value.real) w with
  | error _ => rfl
  | ok _ =>
    cases readList Value.real b with
    | error _ => rfl
    | ok _ => cases readActivation a <;> rfl

theorem ofValue_array {items : List Value} {e : LayerEntry} :
    ofValue (.array items) = .ok e ↔ Writes (.array items) e := by
  constructor
  · intro h
    match items, h with
    | [], h => cases h
    | [w], h =>
      obtain ⟨_, _, h⟩ := bind_eq_ok.mp h
      cases h
    | [w, b], h =>
      rw [ofValue_pair] at h
      obtain ⟨columns, hw, h⟩ := bind_eq_ok.mp h
      obtain ⟨biases, hb, h⟩ := bind_eq_ok.mp h
      cases h
      exact .pair (columns_eq_ok.mp hw) (numbers_eq_ok.mp hb) rfl
    | [w, b, a], h =>
      rw [ofValue_triple] at h
      obtain ⟨columns, hw, h⟩ := bind_eq_ok.mp h
      obtain ⟨biases, hb, h⟩ := bind_eq_ok.mp h
      obtain ⟨activation, ha, h⟩ := bind_eq_ok.mp h
      cases h
      exact .triple (columns_eq_ok.mp hw) (numbers_eq_ok.mp hb) (readActivation_eq_ok.mp ha)
    | _ :: _ :: _ :: _ :: _, h =>
      obtain ⟨_, _, h⟩ := bind_eq_ok.mp h
      obtain ⟨_, _, h⟩ := bind_eq_ok.mp h
      obtain ⟨_, _, h⟩ := bind_eq_ok.mp h
      cases h
  · intro h
    obtain ⟨columns, biases, activation⟩ := e
    cases h with
    | pair hw hb ha =>
      cases ha
      rw [ofValue_pair, columns_eq_ok.mpr hw, numbers_eq_ok.mpr hb]
      rfl
    | triple hw hb ha =>
      rw [ofValue_triple, columns_eq_ok.mpr hw, numbers_eq_ok.mpr hb, readActivation_eq_ok.mpr ha]
      rfl

/-- The reader accepts exactly the values that write an entry. -/
theorem ofValue_eq_ok {v : Value} (hv : v.Proper) {e : LayerEntry} :
    ofValue v = .ok e ↔ Writes v e := by
  cases hv with
  | object hkeys _ => exact ofValue_object hkeys
  | array _ => exact ofValue_array
  | _ => exact ⟨nofun, nofun⟩

/-! ## Finite entries -/

structure IsFinite (e : LayerEntry) : Prop where
  columns : ∀ c ∈ e.columns, ∀ x ∈ c, x.isFinite = true
  biases : ∀ x ∈ e.biases, x.isFinite = true

theorem IsNumber.isFinite {v : Value} {x : Float} (h : IsNumber v x) (hv : v.Proper) :
    x.isFinite = true := by
  obtain ⟨n, rfl, rfl⟩ := h
  cases hv with
  | number hn => exact hn

/-- What holds of the items of a list holds of what they are read as. -/
theorem IsList.forall {β : Type} {P : Value → β → Prop} {Q : β → Prop} {v : Value} {xs : List β}
    (h : IsList P v xs) (hv : v.Proper) (hQ : ∀ w x, P w x → w.Proper → Q x) : ∀ x ∈ xs, Q x := by
  obtain ⟨items, rfl, hitems⟩ := h
  cases hv with
  | array hproper =>
    intro x hx
    obtain ⟨i, hi, rfl⟩ := List.getElem_of_mem hx
    have hi' : i < items.length := hitems.length_eq ▸ hi
    exact hQ _ _ (hitems.get hi' hi) (hproper _ (List.getElem_mem hi'))

theorem isFinite_of_isList {v : Value} {xs : List Float} (h : IsList IsNumber v xs)
    (hv : v.Proper) : ∀ x ∈ xs, x.isFinite = true :=
  h.forall hv fun _ _ hx hw => hx.isFinite hw

theorem isFinite_of_parts {w b : Value} {e : LayerEntry} (hw : w.Proper) (hb : b.Proper)
    (columns : IsList (IsList IsNumber) w e.columns) (biases : IsList IsNumber b e.biases) :
    e.IsFinite :=
  ⟨columns.forall hw fun _ _ hc hv => isFinite_of_isList hc hv, isFinite_of_isList biases hb⟩

theorem mem_of_lookup {fields : List (String × Value)} {key : String} {v : Value}
    (h : fields.lookup key = some v) : (key, v) ∈ fields := by
  obtain ⟨before, after, rfl, _⟩ := List.lookup_eq_some_iff.mp h
  simp

/-- An entry of a text is finite. -/
theorem Writes.isFinite {v : Value} {e : LayerEntry} (h : Writes v e) (hv : v.Proper) :
    e.IsFinite := by
  cases h with
  | fields hw columns hb biases _ _ =>
    cases hv with
    | object _ proper =>
      exact isFinite_of_parts (proper _ (mem_of_lookup hw)) (proper _ (mem_of_lookup hb)) columns
        biases
  | pair columns biases _ =>
    cases hv with
    | array proper =>
      exact isFinite_of_parts (proper _ (by simp)) (proper _ (by simp)) columns biases
  | triple columns biases _ =>
    cases hv with
    | array proper =>
      exact isFinite_of_parts (proper _ (by simp)) (proper _ (by simp)) columns biases

end LayerEntry

end QuantEnclosure
