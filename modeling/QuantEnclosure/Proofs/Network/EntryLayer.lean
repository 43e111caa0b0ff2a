import QuantEnclosure.Proofs.Network.Entry

/-!
The layer of one entry.  An entry that is admissible for its place describes a layer with transposed
weights; for every other entry there is something wrong with it, by the first of the checks that it
fails, and an error that says so (`Misfit`).
-/

namespace QuantEnclosure

open Json

def entryAt (xss : List (List Float)) (i j : Nat) : Option Float := xss[i]?.bind fun xs => xs[j]?

/-- The activation of layer `k` of `n`: all but the last one have a rectifier. -/
def Activation.atPlace (k n : Nat) : Activation := if k + 1 = n then .identity else .relu

theorem Activation.atPlace_succ (k n : Nat) : atPlace (k + 1) (n + 1) = atPlace k n := by
  simp [atPlace]

theorem Activation.ofText_of_ne {text : String} (h : ∀ a, ofText text ≠ .ok a) :
    ofText text = refuse (.unsupportedActivation text) := by
  unfold ofText at h ⊢
  dsimp only at h ⊢
  split
  · exact absurd (if_pos ‹_›) (h relu)
  · split
    · refine absurd ?_ (h identity)
      rw [if_neg ‹_›, if_pos ‹_›]
    · rfl

namespace LayerEntry

/-! ## From an entry to a layer -/

/-- The entry makes a layer with the activation `required`. -/
structure Admissible (e : LayerEntry) (required : Activation) : Prop where
  declared : ∀ text, e.activation = some text → Activation.ofText text = .ok required
  columns_ne : e.columns ≠ []
  length_eq : ∀ c ∈ e.columns, c.length = e.biases.length

/-- The layer has the biases of the entry, and weight `j` of its row `i` is weight `i` of column `j`
of the entry. -/
structure Describes (e : LayerEntry) (required : Activation) (l : Layer Float) : Prop where
  bias_eq : l.bias = e.biases
  activation_eq : l.activation = required
  height_eq : l.weight.height = e.biases.length
  cols_eq : l.weight.cols = e.columns.length
  weight_eq : ∀ i j, entryAt l.weight.rows i j = entryAt e.columns j i

theorem firstBadColumn_eq_none {outputs j : Nat} {columns : List (List Float)} :
    firstBadColumn outputs j columns = none ↔ ∀ c ∈ columns, c.length = outputs := by
  induction columns generalizing j with
  | nil => simp [firstBadColumn]
  | cons c rest ih =>
    rw [firstBadColumn]
    split
    · rename_i hc
      simp [ih, hc]
    · rename_i hc
      simp [hc]

/-- The column that is found is the first one of another length. -/
theorem firstBadColumn_eq_some {outputs j k n : Nat} {columns : List (List Float)}
    (h : firstBadColumn outputs j columns = some (k, n)) :
    ∃ i c, k = j + i ∧ columns[i]? = some c ∧ n = c.length ∧ c.length ≠ outputs ∧
      ∀ p < i, ∀ d, columns[p]? = some d → d.length = outputs := by
  induction columns generalizing j with
  | nil => cases h
  | cons c rest ih =>
    rw [firstBadColumn] at h
    split at h
    · rename_i hc
      obtain ⟨i, d, rfl, hd, hn, hne, hbefore⟩ := ih h
      refine ⟨i + 1, d, by omega, hd, hn, hne, fun p hp b hb => ?_⟩
      cases p with
      | zero =>
        cases hb
        exact hc
      | succ p => exact hbefore p (by omega) b hb
    · rename_i hc
      cases h
      exact ⟨0, c, rfl, rfl, rfl, hc, fun p hp => absurd hp (Nat.not_lt_zero p)⟩

theorem entryAt_weight {e : LayerEntry} (h : ∀ c ∈ e.columns, c.length = e.biases.length)
    (i j : Nat) : entryAt e.weight.rows i j = entryAt e.columns j i := by
  unfold entryAt weight Matrix.ofFn
  rw [List.getElem?_map]
  by_cases hj : j < e.columns.length
  · have hlen := h _ (List.getElem_mem hj)
    by_cases hi : i < e.biases.length
    · simp [hi, hj, hlen]
    · simp [hi, hj, hlen]
  · by_cases hi : i < e.biases.length
    · simp [hi, hj]
    · simp [hi, hj]

theorem getD_isFinite {xs : List Float} (h : ∀ x ∈ xs, x.isFinite = true) (i : Nat) :
    (xs.getD i 0).isFinite = true := by
  rw [List.getD_eq_getElem?_getD]
  cases hx : xs[i]? with
  | none => decide
  | some x => exact h x (List.mem_of_getElem? hx)

theorem isFinite_weight {e : LayerEntry} (h : e.IsFinite) : e.weight.isFinite = true := by
  unfold Matrix.isFinite weight Matrix.ofFn
  simp only [List.all_map, List.all_eq_true, Function.comp_apply]
  intro i _ j _
  apply getD_isFinite
  rw [List.getD_eq_getElem?_getD]
  cases hc : e.columns[j]? with
  | none => simp
  | some c => exact h.columns c (List.mem_of_getElem? hc)

theorem ofParts_weight {e : LayerEntry} (hfinite : e.IsFinite)
    (h : ∀ c ∈ e.columns, c.length = e.biases.length) (required : Activation) :
    ∃ l, Layer.ofParts e.weight e.biases required = .ok l ∧ e.Describes required l := by
  have hheight : e.weight.height = e.biases.length := by
    simp [weight, Matrix.ofFn, Matrix.height]
  have hbiases : Vec.isFinite e.biases = true := List.all_eq_true.mpr hfinite.biases
  have hparts : (e.weight.isFinite && Vec.isFinite e.biases) = true := by
    rw [isFinite_weight hfinite, hbiases]
    rfl
  refine ⟨⟨e.weight, e.biases, required, hheight, hparts⟩, ?_, ?_⟩
  · exact ensureDim_bind_eq_ok.mpr ⟨hheight, dif_pos hparts⟩
  · exact ⟨rfl, rfl, hheight, rfl, entryAt_weight h⟩

/-! ## Faults of an entry -/

/-- What is wrong with an entry by itself, and the error that says so. -/
inductive Misfit (name : String) (v : Value) (required : Activation) : AnalysisError → Prop
  | unreadable {fault : DecodeError} (unwritten : ∀ e, ¬ Writes v e)
      (found : ofValue v = .error fault) :
      Misfit name v required (.modelLoad s!"layer '{name}': {fault.message}")
  | unknownActivation {e : LayerEntry} {text : String} (written : Writes v e)
      (declared : e.activation = some text) (unknown : ∀ a, Activation.ofText text ≠ .ok a) :
      Misfit name v required (.unsupportedActivation text)
  | otherActivation {e : LayerEntry} {text : String} {other : Activation} (written : Writes v e)
      (declared : e.activation = some text) (known : Activation.ofText text = .ok other)
      (differs : other ≠ required) :
      Misfit name v required
        (.modelLoad s!"layer '{name}' declares {other.name} but must be {required.name}")
  | noColumns {e : LayerEntry} (written : Writes v e)
      (declared : ∀ text, e.activation = some text → Activation.ofText text = .ok required)
      (empty : e.columns = []) :
      Misfit name v required (.modelLoad s!"layer '{name}' has no weight columns")
  | unevenColumn {e : LayerEntry} {j : Nat} {c : List Float} (written : Writes v e)
      (declared : ∀ text, e.activation = some text → Activation.ofText text = .ok required)
      (column : e.columns[j]? = some c) (uneven : c.length ≠ e.biases.length)
      (first : ∀ i < j, ∀ d, e.columns[i]? = some d → d.length = e.biases.length) :
      Misfit name v required (.modelLoad
        s!"layer '{name}': weight column {j} has {c.length} entries, expected {e.biases.length}")

theorem Misfit.not_admissible {name : String} {v : Value} {required : Activation}
    {error : AnalysisError} (h : Misfit name v required error) (hv : v.Proper)
    {e : LayerEntry} (he : Writes v e) : ¬ e.Admissible required := by
  have hunique {d : LayerEntry} (hd : Writes v d) : d = e :=
    Except.ok.inj (((ofValue_eq_ok hv).mpr hd).symm.trans ((ofValue_eq_ok hv).mpr he))
  intro ha
  cases h with
  | unreadable hnone _ => exact hnone e he
  | unknownActivation hd hdeclared hunknown =>
    cases hunique hd
    exact hunknown _ (ha.declared _ hdeclared)
  | otherActivation hd hdeclared hknown hdiffers =>
    cases hunique hd
    exact hdiffers (Except.ok.inj (hknown.symm.trans (ha.declared _ hdeclared)))
  | noColumns hd _ hempty =>
    cases hunique hd
    exact ha.columns_ne hempty
  | unevenColumn hd _ hcolumn huneven _ =>
    cases hunique hd
    exact huneven (ha.length_eq _ (List.mem_of_getElem? hcolumn))

def layerOf (name : String) (v : Value) (required : Activation) : Outcome (Layer Float) :=
  match ofValue v with
  | .error fault => refuse (.modelLoad s!"layer '{name}': {fault.message}")
  | .ok e => e.toLayer name required

theorem checkActivation_cases {e : LayerEntry} {v : Value} (hv : Writes v e) (name : String)
    (required : Activation) :
    (e.checkActivation name required = .ok () ∧
      ∀ text, e.activation = some text → Activation.ofText text = .ok required) ∨
    ∃ error, e.checkActivation name required = refuse error ∧ Misfit name v required error := by
  unfold checkActivation
  cases ha : e.activation with
  | none => exact .inl ⟨rfl, nofun⟩
  | some text =>
    by_cases hknown : ∃ a, Activation.ofText text = .ok a
    · obtain ⟨other, ho⟩ := hknown
      dsimp only
      rw [ho]
      by_cases hsame : other = required
      · refine .inl ⟨if_pos hsame, fun text' htext => ?_⟩
        cases htext
        rw [ho, hsame]
      · exact .inr ⟨_, if_neg hsame, .otherActivation hv ha ho hsame⟩
    · rw [not_exists] at hknown
      dsimp only
      rw [Activation.ofText_of_ne hknown]
      exact .inr ⟨_, rfl, .unknownActivation hv ha hknown⟩

/-- After the activation, the columns are looked at. -/
theorem toLayer_eq {e : LayerEntry} {name : String} {required : Activation}
    (h : e.checkActivation name required = .ok ()) (hne : e.columns ≠ []) :
    e.toLayer name required =
      match firstBadColumn e.biases.length 0 e.columns with
      | some (j, count) =>
        refuse (.modelLoad
          s!"layer '{name}': weight column {j} has {count} entries, expected {e.biases.length}")
      | none =>
        match Layer.ofParts e.weight e.biases required with
        | .error (.refused error) => refuse (.modelLoad s!"layer '{name}': {error.message}")
        | result => result := by
  unfold toLayer
  rw [h]
  exact if_neg (by simpa using hne)

/-- An entry that declares no wrong activation is a layer, or its columns are at fault. -/
theorem toLayer_cases {e : LayerEntry} {name : String} {required : Activation} {v : Value}
    (h : e.checkActivation name required = .ok ())
    (hd : ∀ text, e.activation = some text → Activation.ofText text = .ok required)
    (hv : Writes v e) (hfinite : e.IsFinite) :
    (∃ l, e.toLayer name required = .ok l ∧ e.Admissible required ∧ e.Describes required l) ∨
      ∃ error, e.toLayer name required = refuse error ∧ Misfit name v required error := by
  by_cases hne : e.columns = []
  · refine .inr ⟨_, ?_, .noColumns hv hd hne⟩
    unfold toLayer
    rw [h, hne]
    rfl
  rw [toLayer_eq h hne]
  cases hbad : firstBadColumn e.biases.length 0 e.columns with
  | none =>
    have heven := firstBadColumn_eq_none.mp hbad
    obtain ⟨l, hl, hdescribes⟩ := ofParts_weight hfinite heven required
    exact .inl ⟨l, by rw [hl], ⟨hd, hne, heven⟩, hdescribes⟩
  | some p =>
    obtain ⟨k, n⟩ := p
    obtain ⟨j, c, hk, hc, rfl, huneven, hfirst⟩ := firstBadColumn_eq_some hbad
    rw [Nat.zero_add] at hk
    subst hk
    exact .inr ⟨_, rfl, .unevenColumn hv hd hc huneven hfirst⟩

/-- A written entry is a layer, or it is refused for what is wrong with it. -/
theorem layerOf_cases {v : Value} (hproper : v.Proper) (name : String) (required : Activation) :
    (∃ e l, Writes v e ∧ e.Admissible required ∧ layerOf name v required = .ok l ∧
      e.Describes required l) ∨
    ∃ error, layerOf name v required = refuse error ∧ Misfit name v required error := by
  unfold layerOf
  cases hread : ofValue v with
  | error fault =>
    refine .inr ⟨_, rfl, .unreadable (fun e he => ?_) hread⟩
    cases hread.symm.trans ((ofValue_eq_ok hproper).mpr he)
  | ok e =>
    have hv : Writes v e := (ofValue_eq_ok hproper).mp hread
    dsimp only
    rcases checkActivation_cases hv name required with ⟨hcheck, hd⟩ | ⟨error, hcheck, hmisfit⟩
    · rcases toLayer_cases hcheck hd hv (hv.isFinite hproper) with
        ⟨l, hl, ha, hdescribes⟩ | hrefused
      · exact .inl ⟨e, l, hv, ha, hl, hdescribes⟩
      · exact .inr hrefused
    · refine .inr ⟨error, ?_, hmisfit⟩
      rw [toLayer, hcheck]
      rfl

end LayerEntry

end QuantEnclosure
