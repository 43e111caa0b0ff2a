import QuantEnclosure.Proofs.Network.EntryLayer
import QuantEnclosure.Proofs.Propagation.Truncation
import QuantEnclosure.Proofs.Refusal

/-!
Which texts are networks.  An object is one exactly if every entry is written as a layer, is
admissible for its place and takes what the entry before it gives; the layers are then those of the
entries, with the weights transposed.  Entries are looked at one by one before any two of them are
put together: so the first entry that is at fault by itself is reported, and a link only if there is
no such entry, even if the link stands before it.
-/

namespace QuantEnclosure

open Json

namespace Network

/-! ## Entries one by one -/

/-- Every entry is written as the layer of its place. -/
structure Fit (entries : List (String × Value)) (es : List LayerEntry) : Prop where
  written : List.Forall₂ (fun p e => LayerEntry.Writes p.2 e) entries es
  admissible : ∀ (k : Nat) (e : LayerEntry), es[k]? = some e →
    e.Admissible (.atPlace k entries.length)

/-- The layers are those of the entries, in their order. -/
structure Renders (es : List LayerEntry) (layers : List (Layer Float)) : Prop where
  length_eq : layers.length = es.length
  describes : ∀ (k : Nat) (e : LayerEntry) (l : Layer Float), es[k]? = some e →
    layers[k]? = some l → e.Describes (.atPlace k es.length) l

/-- The entry at `k` is at fault by itself, and no entry before it is. -/
structure FirstMisfit (entries : List (String × Value)) (k : Nat) (error : AnalysisError) :
    Prop where
  misfit : ∃ name v, entries[k]? = some (name, v) ∧
    LayerEntry.Misfit name v (.atPlace k entries.length) error
  before : ∀ j < k, ∀ name v, entries[j]? = some (name, v) →
    ∃ e, LayerEntry.Writes v e ∧ e.Admissible (.atPlace j entries.length)

theorem readLayers_cons (name : String) (v : Value) (rest : List (String × Value)) :
    readLayers ((name, v) :: rest) =
      (LayerEntry.layerOf name v (.atPlace 0 (rest.length + 1)) >>= fun l =>
        readLayers rest >>= fun layers => .ok (l :: layers)) := by
  have hplace : Activation.atPlace 0 (rest.length + 1) =
      if rest.isEmpty then .identity else .relu := by
    cases rest <;> rfl
  rw [readLayers, LayerEntry.layerOf, hplace]
  cases LayerEntry.ofValue v <;> rfl

theorem Fit.cons {name : String} {v : Value} {rest : List (String × Value)} {e : LayerEntry}
    {es : List LayerEntry} (hv : LayerEntry.Writes v e)
    (he : e.Admissible (.atPlace 0 (rest.length + 1))) (h : Fit rest es) :
    Fit ((name, v) :: rest) (e :: es) := by
  refine ⟨.cons hv h.written, fun k d hd => ?_⟩
  cases k with
  | zero =>
    cases hd
    exact he
  | succ k =>
    rw [List.length_cons, Activation.atPlace_succ]
    exact h.admissible k d hd

theorem Renders.cons {e : LayerEntry} {es : List LayerEntry} {l : Layer Float}
    {layers : List (Layer Float)} (he : e.Describes (.atPlace 0 (es.length + 1)) l)
    (h : Renders es layers) : Renders (e :: es) (l :: layers) := by
  refine ⟨by simp [h.length_eq], fun k d m hd hm => ?_⟩
  cases k with
  | zero =>
    cases hd
    cases hm
    exact he
  | succ k =>
    rw [List.length_cons, Activation.atPlace_succ]
    exact h.describes k d m hd hm

theorem FirstMisfit.cons {name : String} {v : Value} {rest : List (String × Value)} {k : Nat}
    {error : AnalysisError} {e : LayerEntry} (hv : LayerEntry.Writes v e)
    (he : e.Admissible (.atPlace 0 (rest.length + 1))) (h : FirstMisfit rest k error) :
    FirstMisfit ((name, v) :: rest) (k + 1) error := by
  obtain ⟨⟨n, w, hw, hmisfit⟩, hbefore⟩ := h
  refine ⟨⟨n, w, hw, ?_⟩, fun j hj n w hw => ?_⟩
  · rw [List.length_cons, Activation.atPlace_succ]
    exact hmisfit
  · cases j with
    | zero =>
      cases hw
      exact ⟨e, hv, he⟩
    | succ j =>
      rw [List.length_cons, Activation.atPlace_succ]
      exact hbefore j (by omega) n w hw

/-- The entries are all layers, or the first one that is none is refused. -/
theorem readLayers_cases {entries : List (String × Value)} (hproper : ∀ p ∈ entries, p.2.Proper) :
    (∃ es layers, Fit entries es ∧ readLayers entries = .ok layers ∧ Renders es layers) ∨
      ∃ k error, readLayers entries = refuse error ∧ FirstMisfit entries k error := by
  induction entries with
  | nil =>
    refine .inl ⟨[], [], ⟨.nil, fun k e h => ?_⟩, rfl, ⟨rfl, fun k e l h => ?_⟩⟩
    · simp at h
    · simp at h
  | cons p rest ih =>
    obtain ⟨name, v⟩ := p
    have hv : v.Proper := hproper _ (List.mem_cons_self ..)
    rw [readLayers_cons]
    rcases LayerEntry.layerOf_cases hv name (.atPlace 0 (rest.length + 1)) with
      ⟨e, l, hw, ha, hl, hd⟩ | ⟨error, hl, hmisfit⟩
    · rw [hl]
      rcases ih fun q hq => hproper q (List.mem_cons_of_mem _ hq) with
        ⟨es, layers, hfit, hread, hrenders⟩ | ⟨k, error, hread, hfirst⟩
      · rw [hread]
        refine .inl ⟨e :: es, l :: layers, hfit.cons hw ha, rfl, hrenders.cons ?_⟩
        rw [← hfit.written.length_eq]
        exact hd
      · rw [hread]
        exact .inr ⟨k + 1, error, rfl, hfirst.cons hw ha⟩
    · rw [hl]
      refine .inr ⟨0, error, rfl, ⟨name, v, rfl, hmisfit⟩, fun j hj => ?_⟩
      omega

theorem Fit.exists_entry {entries : List (String × Value)} {es : List LayerEntry}
    (h : Fit entries es) {k : Nat} {name : String} {v : Value}
    (hv : entries[k]? = some (name, v)) :
    ∃ e, LayerEntry.Writes v e ∧ e.Admissible (.atPlace k entries.length) := by
  obtain ⟨hk, heq⟩ := List.getElem?_eq_some_iff.mp hv
  have hk' : k < es.length := h.written.length_eq ▸ hk
  have hw := h.written.get hk hk'
  rw [List.get_eq_getElem, heq] at hw
  exact ⟨es[k], hw, h.admissible k _ (List.getElem?_eq_getElem hk')⟩

/-- The entries determine what they are written from. -/
theorem Fit.unique {entries : List (String × Value)} (hproper : ∀ p ∈ entries, p.2.Proper)
    {es ds : List LayerEntry} (he : Fit entries es) (hd : Fit entries ds) : es = ds := by
  have hread {cs : List LayerEntry} (h : Fit entries cs) :
      entries.mapM (fun p => LayerEntry.ofValue p.2) = .ok cs := by
    rw [mapM_eq_ok]
    refine List.forall₂_iff_get.mpr ⟨h.written.length_eq, fun i hi hi' => ?_⟩
    exact (LayerEntry.ofValue_eq_ok (hproper _ (List.get_mem ..))).mpr (h.written.get hi hi')
  exact Except.ok.inj ((hread he).symm.trans (hread hd))

/-! ## Links -/

theorem outputDim_of_linked {layers : List (Layer Float)} (h : Linked layers) {k : Nat}
    {a b : Layer Float} (ha : layers[k]? = some a) (hb : layers[k + 1]? = some b) :
    a.outputDim = b.inputDim := by
  induction layers generalizing k with
  | nil => simp at ha
  | cons c rest ih =>
    cases rest with
    | nil => simp at hb
    | cons d rest =>
      cases k with
      | zero =>
        cases ha
        cases hb
        exact h.1
      | succ k => exact ih h.2 ha hb

/-- The layers are linked, or the first two that are not are refused. -/
theorem checkLinks_cases (layers : List (Layer Float)) (k : Nat) :
    Linked layers ∨ ∃ j a b, layers[j]? = some a ∧ layers[j + 1]? = some b ∧
      a.outputDim ≠ b.inputDim ∧
      (∀ i < j, ∀ c d, layers[i]? = some c → layers[i + 1]? = some d → c.outputDim = d.inputDim) ∧
      checkLinks k layers =
        refuse (.shapeMismatch s!"layer {k + j} input" [a.outputDim] [b.inputDim]) := by
  induction layers generalizing k with
  | nil => exact .inl trivial
  | cons a rest ih =>
    cases rest with
    | nil => exact .inl trivial
    | cons b rest =>
      by_cases hlink : a.outputDim = b.inputDim
      · rcases ih (k + 1) with hlinked | ⟨j, c, d, hc, hd, hne, hbefore, hcheck⟩
        · exact .inl ⟨hlink, hlinked⟩
        · refine .inr ⟨j + 1, c, d, hc, hd, hne, fun i hi e f he hf => ?_, ?_⟩
          · cases i with
            | zero =>
              cases he
              cases hf
              exact hlink
            | succ i => exact hbefore i (by omega) e f he hf
          · rw [checkLinks, ensureDim_of_eq _ hlink]
            show (checkLinks (k + 1) (b :: rest) >>= _) = _
            rw [hcheck, show k + 1 + j = k + (j + 1) by omega]
            rfl
      · refine .inr ⟨0, a, b, rfl, rfl, hlink, fun i hi => absurd hi (Nat.not_lt_zero i), ?_⟩
        rw [checkLinks, ensureDim_bind_of_ne _ hlink]
        rfl

/-! ## Whole networks -/

/-- The entries are those of the network that is written with `es`. -/
structure Loadable (entries : List (String × Value)) (es : List LayerEntry) : Prop
    extends Fit entries es where
  nonempty : entries ≠ []
  linked : ∀ (k : Nat) (a b : LayerEntry), es[k]? = some a → es[k + 1]? = some b →
    b.columns.length = a.biases.length

/-- The entries at `k` and after it do not fit together, and all before them do. -/
structure FirstBreak (es : List LayerEntry) (k : Nat) (a b : LayerEntry) : Prop where
  left : es[k]? = some a
  right : es[k + 1]? = some b
  differ : a.biases.length ≠ b.columns.length
  before : ∀ j < k, ∀ c d : LayerEntry, es[j]? = some c → es[j + 1]? = some d →
    d.columns.length = c.biases.length

/-- Why an object is no network: it has no entries, the first entry that is at fault by itself, or,
if there is none, the first two that do not fit together. -/
inductive Refused (entries : List (String × Value)) : AnalysisError → Prop
  | empty (none : entries = []) : Refused entries (.invalidNetwork "network has no layers")
  | entry {k : Nat} {error : AnalysisError} (first : FirstMisfit entries k error) :
      Refused entries error
  | link {es : List LayerEntry} {k : Nat} {a b : LayerEntry} (fit : Fit entries es)
      (first : FirstBreak es k a b) :
      Refused entries
        (.shapeMismatch s!"layer {k + 1} input" [a.biases.length] [b.columns.length])

theorem Renders.exists_entry {es : List LayerEntry} {layers : List (Layer Float)}
    (h : Renders es layers) {k : Nat} {l : Layer Float} (hl : layers[k]? = some l) :
    ∃ e, es[k]? = some e ∧ l.outputDim = e.biases.length ∧ l.inputDim = e.columns.length := by
  obtain ⟨hk, _⟩ := List.getElem?_eq_some_iff.mp hl
  have hk' : k < es.length := h.length_eq ▸ hk
  have he : es[k]? = some es[k] := List.getElem?_eq_getElem hk'
  have hdescribes := h.describes k _ l he hl
  exact ⟨es[k], he, hdescribes.height_eq, hdescribes.cols_eq⟩

/-- Linked layers are those of entries that fit together. -/
theorem Renders.length_columns {es : List LayerEntry} {layers : List (Layer Float)}
    (h : Renders es layers) {k : Nat}
    (hlink : ∀ a b, layers[k]? = some a → layers[k + 1]? = some b → a.outputDim = b.inputDim)
    {c d : LayerEntry} (hc : es[k]? = some c) (hd : es[k + 1]? = some d) :
    d.columns.length = c.biases.length := by
  obtain ⟨hk, _⟩ := List.getElem?_eq_some_iff.mp hd
  rw [← h.length_eq] at hk
  have ha : layers[k]? = some layers[k] := List.getElem?_eq_getElem (by omega)
  have hb : layers[k + 1]? = some layers[k + 1] := List.getElem?_eq_getElem hk
  have hinput : layers[k + 1].inputDim = d.columns.length := (h.describes _ d _ hd hb).cols_eq
  have houtput : layers[k].outputDim = c.biases.length := (h.describes _ c _ hc ha).height_eq
  rw [← hinput, ← houtput, hlink _ _ ha hb]

/-- Entries that are layers make a network, or the first break between them is refused. -/
theorem ofLayers_cases {entries : List (String × Value)} {es : List LayerEntry}
    {layers : List (Layer Float)} (hfit : Fit entries es) (h : Renders es layers) :
    (Loadable entries es ∧ ∃ net, ofLayers layers = .ok net ∧ Renders es net.layers) ∨
      ∃ error, ofLayers layers = refuse error ∧ Refused entries error := by
  have hlength : layers.length = entries.length := h.length_eq.trans hfit.written.length_eq.symm
  unfold ofLayers
  by_cases hne : layers = []
  · refine .inr ⟨_, dif_pos hne, .empty ?_⟩
    rwa [← List.length_eq_zero_iff, ← hlength, List.length_eq_zero_iff]
  · rw [dif_neg hne]
    rcases checkLinks_cases layers 1 with hlinked | ⟨j, a, b, ha, hb, hdiffer, hbefore, hcheck⟩
    · refine .inl ⟨⟨hfit, ?_, fun k c d hc hd => ?_⟩, ⟨layers, hne, hlinked⟩, ?_, h⟩
      · rintro rfl
        exact hne (List.length_eq_zero_iff.mp hlength)
      · exact h.length_columns (fun a b => outputDim_of_linked hlinked) hc hd
      · exact bind_eq_ok.mpr ⟨_, checkLinks_eq hlinked 1, rfl⟩
    · obtain ⟨c, hc, hout, _⟩ := h.exists_entry ha
      obtain ⟨d, hd, _, hin⟩ := h.exists_entry hb
      have hbreak : FirstBreak es j c d :=
        ⟨hc, hd, by rwa [hout, hin] at hdiffer,
          fun i hi e f he hf => h.length_columns (hbefore i hi) he hf⟩
      rw [hout, hin, Nat.add_comm] at hcheck
      rw [hcheck]
      exact .inr ⟨_, rfl, .link hfit hbreak⟩

/-- Whatever is refused is no network. -/
theorem Refused.not_loadable {entries : List (String × Value)} {error : AnalysisError}
    (h : Refused entries error) (hproper : ∀ p ∈ entries, p.2.Proper) {es : List LayerEntry} :
    ¬ Loadable entries es := by
  intro hes
  cases h with
  | empty hnone => exact hes.nonempty hnone
  | entry hfirst =>
    obtain ⟨name, v, hv, hmisfit⟩ := hfirst.misfit
    obtain ⟨e, he, ha⟩ := hes.toFit.exists_entry hv
    exact hmisfit.not_admissible (hproper _ (List.mem_of_getElem? hv)) he ha
  | link hfit hfirst =>
    cases hfit.unique hproper hes.toFit
    exact hfirst.differ (hes.linked _ _ _ hfirst.left hfirst.right).symm

/-- An object is a network, or it is refused. -/
theorem ofText_cases {text : String} {entries : List (String × Value)}
    (h : Value.ofText? text = some (.object entries)) (hproper : ∀ p ∈ entries, p.2.Proper) :
    (∃ es net, Loadable entries es ∧ ofText text = .ok net ∧ Renders es net.layers) ∨
      ∃ error, ofText text = refuse error ∧ Refused entries error := by
  have htext : ofText text = (readLayers entries >>= ofLayers) := by rw [ofText, h]
  rw [htext]
  rcases readLayers_cases hproper with
    ⟨es, layers, hfit, hread, hrenders⟩ | ⟨k, error, hread, hfirst⟩
  · rw [hread]
    rcases ofLayers_cases hfit hrenders with ⟨hes, net, hnet, hr⟩ | hrefused
    · exact .inl ⟨es, net, hes, hnet, hr⟩
    · exact .inr hrefused
  · rw [hread]
    exact .inr ⟨error, rfl, .entry hfirst⟩

/-- A text is a network exactly if it is a JSON object, not empty, whose entries are each written as
a layer, are admissible for their places, and take one after the other what the entry before gives;
the layers are then those of the entries.  A text that is no object cannot be loaded.  An object is
refused for the first entry that is at fault by itself; only if there is none, for the first two
that do not fit together. -/
theorem ofText_exact (text : String) :
    (Value.ofText? text = none → ∃ reason, ofText text = refuse (.modelLoad reason)) ∧
    (∀ v, Value.ofText? text = some v → (∀ entries, v ≠ .object entries) →
      ∃ reason, ofText text = refuse (.modelLoad reason)) ∧
    ∀ entries, Value.ofText? text = some (.object entries) →
      ((∃ net, ofText text = .ok net) ↔ ∃ es, Loadable entries es) ∧
      (∀ es, Loadable entries es → ∃ net, ofText text = .ok net ∧ Renders es net.layers) ∧
      ((¬ ∃ es, Loadable entries es) →
        ∃ error, ofText text = refuse error ∧ Refused entries error) := by
  refine ⟨fun h => ?_, fun v h hv => ?_, fun entries h => ?_⟩
  · exact ⟨_, by rw [ofText, h]⟩
  · refine ⟨"expected an object keyed by layer name", ?_⟩
    rw [ofText, h]
    cases v with
    | object entries => exact absurd rfl (hv entries)
    | _ => rfl
  · have hproper := Value.proper_entries_of_ofText h
    rcases ofText_cases h hproper with ⟨es, net, hes, hnet, hrenders⟩ | ⟨error, hrefuse, hrefused⟩
    · refine ⟨⟨fun _ => ⟨es, hes⟩, fun _ => ⟨net, hnet⟩⟩, fun ds hds => ?_, fun hnone => ?_⟩
      · cases hes.toFit.unique hproper hds.toFit
        exact ⟨net, hnet, hrenders⟩
      · exact absurd ⟨es, hes⟩ hnone
    · have hnone {es : List LayerEntry} : ¬ Loadable entries es := hrefused.not_loadable hproper
      refine ⟨⟨fun ⟨net, hnet⟩ => ?_, fun ⟨es, hes⟩ => ?_⟩, fun es hes => ?_, fun _ => ?_⟩
      · cases hrefuse.symm.trans hnet
      · exact absurd hes hnone
      · exact absurd hes hnone
      · exact ⟨error, hrefuse, hrefused⟩

/-- One input, two neurons and one output. -/
def tallFirst : String :=
  "\x7b\"a\":\x7b\"biases\":[0,0],\"activation\":\" ReLU\",\"weights\":[[1,2]]\x7d," ++
    "\"b\":[[[3],[4]],[5]]\x7d"

def numbers (is : List Int) : Value := .array (is.map fun i => .number (.int i))

def floats (is : List Int) : List Float := is.map fun i => (Number.int i).toFloat

theorem isList_numbers (is : List Int) :
    LayerEntry.IsList LayerEntry.IsNumber (numbers is) (floats is) := by
  refine ⟨_, rfl, ?_⟩
  rw [floats, List.forall₂_map_left_iff, List.forall₂_map_right_iff, List.forall₂_same]
  exact fun i _ => ⟨.int i, rfl, rfl⟩

def tallEntries : List (String × Value) :=
  [ ("a", .object [("biases", numbers [0, 0]), ("activation", .string " ReLU"),
      ("weights", .array [numbers [1, 2]])]),
    ("b", .array [.array [numbers [3], numbers [4]], numbers [5]]) ]

def tallLayers : List LayerEntry :=
  [⟨[floats [1, 2]], floats [0, 0], some " ReLU"⟩, ⟨[floats [3], floats [4]], floats [5], none⟩]

theorem tallLayers_fit : Fit tallEntries tallLayers := by
  constructor
  · refine .cons (.fields rfl ⟨_, rfl, .cons (isList_numbers _) .nil⟩ rfl (isList_numbers _) nofun
      fun a ha => ?_) (.cons ?_ .nil)
    · obtain rfl := Option.some.inj ha
      exact .name " ReLU"
    · exact .pair ⟨_, rfl, .cons (isList_numbers _) (.cons (isList_numbers _) .nil)⟩
        (isList_numbers _) rfl
  · intro k e he
    rcases k with _ | _ | k
    · obtain rfl := Option.some.inj he
      refine ⟨fun text ht => ?_, List.cons_ne_nil _ _, by simp [floats]⟩
      obtain rfl := Option.some.inj ht
      rfl
    · obtain rfl := Option.some.inj he
      exact ⟨nofun, List.cons_ne_nil _ _, by simp [floats]⟩
    · simp [tallLayers] at he

/-- The column of the first layer is read as two rows. -/
theorem tallFirst_loaded :
    Value.ofText? tallFirst = some (.object tallEntries) ∧ Loadable tallEntries tallLayers ∧
      ∃ net l, ofText tallFirst = .ok net ∧ net.layers[0]? = some l ∧ l.activation = .relu ∧
        l.weight.height = 2 ∧ entryAt l.weight.rows 1 0 = some 2 := by
  have hread : Value.ofText? tallFirst = some (.object tallEntries) := by decide +kernel
  have hes : Loadable tallEntries tallLayers := by
    refine ⟨tallLayers_fit, List.cons_ne_nil _ _, fun k a b ha hb => ?_⟩
    rcases k with _ | k
    · obtain rfl := Option.some.inj ha
      obtain rfl := Option.some.inj hb
      rfl
    · simp [tallLayers] at hb
  obtain ⟨_, _, hobject⟩ := ofText_exact tallFirst
  obtain ⟨_, hload, _⟩ := hobject tallEntries hread
  obtain ⟨net, hnet, hrenders⟩ := hload tallLayers hes
  have hlayer : net.layers[0]? = some (net.layers.head net.nonempty) := by
    rw [← List.head?_eq_getElem?, List.head?_eq_some_head net.nonempty]
  have hfirst := hrenders.describes 0 _ _ rfl hlayer
  refine ⟨hread, hes, net, _, hnet, hlayer, hfirst.activation_eq, hfirst.height_eq, ?_⟩
  rw [hfirst.weight_eq]
  decide +kernel

/-- The entry at `k` is at fault, by itself or with the entry before it, and `error` says so. -/
inductive Offends (entries : List (String × Value)) : Nat → AnalysisError → Prop
  | entry {k : Nat} {name : String} {v : Value} {error : AnalysisError}
      (place : entries[k]? = some (name, v))
      (misfit : LayerEntry.Misfit name v (.atPlace k entries.length) error) :
      Offends entries k error
  | link {k : Nat} {p q : String × Value} {a b : LayerEntry} (left : entries[k]? = some p)
      (right : entries[k + 1]? = some q) (leftWrites : LayerEntry.Writes p.2 a)
      (rightWrites : LayerEntry.Writes q.2 b) (differ : a.biases.length ≠ b.columns.length) :
      Offends entries (k + 1)
        (.shapeMismatch s!"layer {k + 1} input" [a.biases.length] [b.columns.length])

/-- The second layer takes two numbers where the first one gives one; the third has no weights. -/
def crossedFaults : String :=
  "\x7b\"a\":[[[1]],[0]],\"b\":[[[1],[1]],[0]],\"c\":[[],[0]]\x7d"

def crossedEntries : List (String × Value) :=
  [ ("a", .array [.array [numbers [1]], numbers [0]]),
    ("b", .array [.array [numbers [1], numbers [1]], numbers [0]]),
    ("c", .array [.array [], numbers [0]]) ]

/-- The error is not the one of the first entry that is at fault: a link that stands before an entry
at fault by itself is not reported. -/
theorem crossedFaults_order :
    Value.ofText? crossedFaults = some (.object crossedEntries) ∧
      ofText crossedFaults = refuse (.modelLoad "layer 'c' has no weight columns") ∧
      ¬ ∃ k, Offends crossedEntries k (.modelLoad "layer 'c' has no weight columns") ∧
        ∀ j < k, ∀ other, ¬ Offends crossedEntries j other := by
  have hread : Value.ofText? crossedFaults = some (.object crossedEntries) := by decide +kernel
  have hrefused : ofText crossedFaults =
      .error (.refused (.modelLoad "layer 'c' has no weight columns")) := by decide +kernel
  have hproper := Value.proper_entries_of_ofText hread
  have ha : LayerEntry.Writes (.array [.array [numbers [1]], numbers [0]])
      ⟨[floats [1]], floats [0], none⟩ :=
    .pair ⟨_, rfl, .cons (isList_numbers _) .nil⟩ (isList_numbers _) rfl
  have hb : LayerEntry.Writes (.array [.array [numbers [1], numbers [1]], numbers [0]])
      ⟨[floats [1], floats [1]], floats [0], none⟩ :=
    .pair ⟨_, rfl, .cons (isList_numbers _) (.cons (isList_numbers _) .nil)⟩ (isList_numbers _) rfl
  refine ⟨hread, hrefused, ?_⟩
  rintro ⟨k, hk, hfirst⟩
  match k, hk with
  | 0, .entry hv hmisfit =>
    obtain rfl := (Prod.mk.inj (Option.some.inj hv)).2
    exact hmisfit.not_admissible (hproper _ (List.mem_of_getElem? hv)) ha
      ⟨nofun, by simp, by simp [floats]⟩
  | 1, .entry hv hmisfit =>
    obtain rfl := (Prod.mk.inj (Option.some.inj hv)).2
    exact hmisfit.not_admissible (hproper _ (List.mem_of_getElem? hv)) hb
      ⟨nofun, by simp, by simp [floats]⟩
  | k + 2, _ => exact hfirst 1 (by omega) _ (.link (k := 0) rfl rfl ha hb (by simp [floats]))

end Network

end QuantEnclosure
