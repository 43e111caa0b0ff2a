import QuantEnclosure.Json.Value
import QuantEnclosure.Proofs.Json.FiniteNumbers

/-!
What a value that was read from a text is like: all of its numbers are finite, and no object has a
key twice, since a key that is written again takes the place of the first one.  Values can be
compared, so that the value of a given text can be found out by reading it.
-/

namespace QuantEnclosure.Json

deriving instance DecidableEq for Number

namespace Value

/-- Every number is finite, and no object has a key twice. -/
inductive Proper : Value → Prop
  | null : Proper .null
  | bool (b : Bool) : Proper (.bool b)
  | number {n : Number} (finite : n.toFloat.isFinite = true) : Proper (.number n)
  | string (s : String) : Proper (.string s)
  | array {items : List Value} (proper : ∀ v ∈ items, Proper v) : Proper (.array items)
  | object {fields : List (String × Value)} (distinct : (fields.map Prod.fst).Nodup)
      (proper : ∀ p ∈ fields, Proper p.2) : Proper (.object fields)

theorem mem_setField {key : String} {v : Value} {fields : List (String × Value)}
    {p : String × Value} (h : p ∈ setField key v fields) : p = (key, v) ∨ p ∈ fields := by
  induction fields with
  | nil => exact .inl (List.mem_singleton.mp h)
  | cons q rest ih =>
    obtain ⟨k, w⟩ := q
    rw [setField] at h
    split at h
    · rename_i hk
      subst hk
      rcases List.mem_cons.mp h with rfl | h
      · exact .inl rfl
      · exact .inr (List.mem_cons_of_mem _ h)
    · rcases List.mem_cons.mp h with rfl | h
      · exact .inr (List.mem_cons_self ..)
      · exact (ih h).imp_right (List.mem_cons_of_mem _)

/-- A key that is set keeps its place, or comes last. -/
theorem keys_setField (key : String) (v : Value) (fields : List (String × Value)) :
    (setField key v fields).map Prod.fst =
      if key ∈ fields.map Prod.fst then fields.map Prod.fst else fields.map Prod.fst ++ [key] := by
  induction fields with
  | nil => rfl
  | cons q rest ih =>
    obtain ⟨k, w⟩ := q
    rw [setField]
    split
    · rename_i hk
      simp [hk]
    · rename_i hk
      simp only [List.map_cons, ih, List.mem_cons, Ne.symm hk, false_or]
      split <;> rfl

theorem nodup_setField {key : String} {v : Value} {fields : List (String × Value)}
    (h : (fields.map Prod.fst).Nodup) : ((setField key v fields).map Prod.fst).Nodup := by
  rw [keys_setField]
  split
  · exact h
  · rename_i hkey
    exact List.nodup_append.mpr ⟨h, by simp, fun a ha b hb hab => hkey (by simp_all)⟩

mutual

theorem proper_of_ofDoc {depth : Nat} : ∀ {d : Doc} {v : Value}, ofDoc? depth d = some v → v.Proper
  | .null, v, h => by
    cases h
    exact .null
  | .bool b, v, h => by
    cases h
    exact .bool b
  | .number n, v, h => by
    obtain ⟨w, hw, rfl⟩ := Option.map_eq_some_iff.mp h
    exact .number (Numeral.isFinite_of_value hw)
  | .string units, v, h => by
    obtain ⟨s, _, rfl⟩ := Option.map_eq_some_iff.mp h
    exact .string s
  | .array items closed, v, h => by
    rw [ofDoc?] at h
    split at h
    · obtain ⟨vs, hvs, rfl⟩ := Option.map_eq_some_iff.mp h
      exact .array (proper_of_ofItems hvs)
    · cases h
  | .object fields closed, v, h => by
    rw [ofDoc?] at h
    split at h
    · obtain ⟨ps, hps, rfl⟩ := Option.map_eq_some_iff.mp h
      exact proper_of_ofFields (by simp) (by simp) hps
    · cases h
  | .broken, v, h => by cases h

theorem proper_of_ofItems {depth : Nat} :
    ∀ {items : List Doc} {vs : List Value}, ofItems? depth items = some vs → ∀ v ∈ vs, v.Proper
  | [], vs, h => by
    cases h
    simp
  | d :: rest, vs, h => by
    rw [ofItems?] at h
    split at h
    · cases h
    · rename_i v hv
      obtain ⟨ws, hws, rfl⟩ := Option.map_eq_some_iff.mp h
      intro w hw
      rcases List.mem_cons.mp hw with rfl | hw
      · exact proper_of_ofDoc hv
      · exact proper_of_ofItems hws w hw

theorem proper_of_ofFields {depth : Nat} :
    ∀ {fields : List (List Nat × Doc)} {done ps : List (String × Value)},
      (done.map Prod.fst).Nodup → (∀ p ∈ done, p.2.Proper) → ofFields? depth done fields = some ps →
      (Value.object ps).Proper
  | [], done, ps, hkeys, hdone, h => by
    cases h
    exact .object hkeys hdone
  | (units, d) :: rest, done, ps, hkeys, hdone, h => by
    rw [ofFields?] at h
    split at h
    · rename_i key v hkey hv
      refine proper_of_ofFields (nodup_setField hkeys) (fun p hp => ?_) h
      rcases mem_setField hp with rfl | hp
      · exact proper_of_ofDoc hv
      · exact hdone p hp
    · cases h

end

theorem proper_of_ofText {text : String} {v : Value} (h : ofText? text = some v) : v.Proper := by
  unfold ofText? at h
  split at h
  split at h
  · exact proper_of_ofDoc h
  · cases h

theorem proper_entries_of_ofText {text : String} {entries : List (String × Value)}
    (h : ofText? text = some (.object entries)) : ∀ p ∈ entries, p.2.Proper := by
  cases proper_of_ofText h with
  | object _ proper => exact proper

/-! ## Comparing values -/

mutual

def same : Value → Value → Bool
  | .null, .null => true
  | .bool a, .bool b => decide (a = b)
  | .number m, .number n => decide (m = n)
  | .string s, .string t => decide (s = t)
  | .array vs, .array ws => sameItems vs ws
  | .object fs, .object gs => sameFields fs gs
  | _, _ => false

def sameItems : List Value → List Value → Bool
  | [], [] => true
  | v :: vs, w :: ws => same v w && sameItems vs ws
  | _, _ => false

def sameFields : List (String × Value) → List (String × Value) → Bool
  | [], [] => true
  | (k, v) :: fs, (l, w) :: gs => decide (k = l) && same v w && sameFields fs gs
  | _, _ => false

end

mutual

theorem same_iff : ∀ v w : Value, same v w = true ↔ v = w
  | .null, w => by cases w <;> simp [same]
  | .bool a, w => by cases w <;> simp [same]
  | .number m, w => by cases w <;> simp [same]
  | .string s, w => by cases w <;> simp [same]
  | .array vs, w => by cases w <;> simp [same, sameItems_iff vs]
  | .object fs, w => by cases w <;> simp [same, sameFields_iff fs]

theorem sameItems_iff : ∀ vs ws : List Value, sameItems vs ws = true ↔ vs = ws
  | [], ws => by cases ws <;> simp [sameItems]
  | v :: vs, ws => by cases ws <;> simp [sameItems, same_iff v, sameItems_iff vs]

theorem sameFields_iff : ∀ fs gs : List (String × Value), sameFields fs gs = true ↔ fs = gs
  | [], gs => by cases gs <;> simp [sameFields]
  | (k, v) :: fs, gs => by
    cases gs <;> simp [sameFields, same_iff v, sameFields_iff fs, Prod.ext_iff]

end

instance : DecidableEq Value := fun v w => decidable_of_iff _ (same_iff v w)

end Value

end QuantEnclosure.Json
