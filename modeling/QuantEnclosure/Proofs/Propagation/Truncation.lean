import QuantEnclosure.Proofs.Propagation.Progress

/-!
The first layers of a network are a network, and its propagation is the beginning of the
propagation through the whole: same start, same records, and the interval hull of its error is the
one that the last of these records holds.  This is true in any arithmetic.
-/

namespace QuantEnclosure

variable {α : Type} [Scalar α]

theorem linked_take {layers : List (Layer α)} (h : Linked layers) (k : Nat) :
    Linked (layers.take k) := by
  induction layers generalizing k with
  | nil => simpa using h
  | cons a layers ih =>
    cases k with
    | zero => exact trivial
    | succ k =>
      cases layers with
      | nil => simpa using h
      | cons b rest =>
        have htail := ih h.2 k
        cases k with
        | zero => exact trivial
        | succ k => exact ⟨h.1, htail⟩

theorem checkLinks_eq {layers : List (Layer α)} (h : Linked layers) (k : Nat) :
    checkLinks k layers = .ok ⟨h⟩ := by
  induction layers generalizing k with
  | nil => rfl
  | cons a layers ih =>
    cases layers with
    | nil => rfl
    | cons b rest =>
      refine bind_eq_ok.mpr ⟨_, ensureDim_of_eq _ h.1, ?_⟩
      exact bind_eq_ok.mpr ⟨_, ih h.2 (k + 1), rfl⟩

/-- The layers of a network are accepted as a network. -/
theorem Network.ofLayers_layers (n : Network α) : Network.ofLayers n.layers = .ok n := by
  unfold ofLayers
  rw [dif_neg n.nonempty, checkLinks_eq n.linked]
  rfl

def Network.truncate (n : Network α) (k : Nat) (hk : 0 < k) : Network α where
  layers := n.layers.take k
  nonempty := by
    simp only [ne_eq, List.take_eq_nil_iff, not_or]
    exact ⟨by omega, n.nonempty⟩
  linked := linked_take n.linked k

theorem Network.inputDim_truncate (n : Network α) (k : Nat) (hk : 0 < k) :
    (n.truncate k hk).inputDim = n.inputDim := by
  simp [inputDim, truncate, List.head_take]

theorem fixedPoint_truncate {n : Network α} {c : Config} {fixed : FixedPointNetwork α}
    (h : n.fixedPoint c = .ok fixed) (k : Nat) (hk : 0 < k) :
    (n.truncate k hk).fixedPoint c = .ok { fixed with layers := fixed.layers.take k } := by
  obtain ⟨quantWeight, quantBias, hv, hw, hb, rfl⟩ := fixedPoint_eq_ok h
  refine bind_eq_ok.mpr ⟨(), hv, ?_⟩
  refine bind_eq_ok.mpr ⟨quantWeight, hw, ?_⟩
  refine bind_eq_ok.mpr ⟨quantBias, hb, ?_⟩
  rw [← liftLayers_take]
  rfl

namespace Trajectory

theorem length_of_run_ok {scale ceiling : α} {index : Nat} {layers : List (LiftedLayer α)}
    {t t' : Trajectory α} {records : List (LayerRecord α)}
    (h : t.run scale ceiling index layers = .ok (t', records)) :
    records.length = layers.length := by
  induction layers generalizing t index records with
  | nil =>
    cases h
    rfl
  | cons l layers ih =>
    obtain ⟨t₁, record, tail, _, hr, rfl⟩ := run_cons_eq_ok.mp h
    simp [ih hr]

/-- The last record of a run holds the interval hull of the error, taken back from the integer
domain. -/
theorem getLast?_of_run_ok {scale ceiling : α} {index : Nat} {layers : List (LiftedLayer α)}
    (hne : layers ≠ []) {t t' : Trajectory α} {records : List (LayerRecord α)}
    (h : t.run scale ceiling index layers = .ok (t', records)) :
    ∃ record, records.getLast? = some record ∧
      (t'.error.scale (1 / scale)).hull = .ok record.errorBounds := by
  induction layers generalizing t index records with
  | nil => exact absurd rfl hne
  | cons l layers ih =>
    obtain ⟨t₁, record, tail, hs, hr, rfl⟩ := run_cons_eq_ok.mp h
    cases layers with
    | nil =>
      cases hr
      obtain ⟨_, _, bounds, _, _, hb, rfl⟩ := step_eq_ok hs
      exact ⟨_, rfl, hb⟩
    | cons l' layers =>
      obtain ⟨last, hlast, hb⟩ := ih (List.cons_ne_nil _ _) hr
      exact ⟨last, by rw [List.getLast?_cons, hlast]; rfl, hb⟩

end Trajectory

/-- The propagation through the first `k` layers gives the first `k` records, quantizes the region
in the same way, and its error bounds are those of record `k - 1`.  So the last record holds the
bounds of the whole analysis. -/
theorem propagate_truncate (cfg : EngineConfig) (n : Network α) (c : Config)
    (region : Zonotope α) (a : Analysis α) (h : propagate cfg n c region = .ok a) :
    (∀ k : Nat, 0 < k → k ≤ n.layers.length →
      ∃ (front : Network α) (b : Analysis α) (record : LayerRecord α),
        Network.ofLayers (n.layers.take k) = .ok front ∧
        propagate cfg front c region = .ok b ∧
        b.trace = a.trace.take k ∧ b.method = a.method ∧
        a.trace[k - 1]? = some record ∧ b.errorBounds = .ok record.errorBounds) ∧
      ∃ last, a.trace.getLast? = some last ∧ a.errorBounds = .ok last.errorBounds := by
  obtain ⟨hd, fixed, start, method, t, trace, hf, hs, hr, rfl⟩ := propagate_eq_ok.mp h
  have hlen : fixed.layers.length = n.layers.length := by
    obtain ⟨_, _, _, _, _, rfl⟩ := fixedPoint_eq_ok hf
    simp
  constructor
  · intro k hk hkn
    rw [← List.take_append_drop k fixed.layers] at hr
    obtain ⟨t₁, head, tail, hfront, _, rfl⟩ := Trajectory.run_append_eq_ok.mp hr
    have hhead : head.length = k := by
      rw [Trajectory.length_of_run_ok hfront, List.length_take]
      omega
    have hne : fixed.layers.take k ≠ [] := by
      intro hnil
      have := congrArg List.length hnil
      rw [List.length_take, List.length_nil] at this
      omega
    obtain ⟨record, hrecord, hbounds⟩ := Trajectory.getLast?_of_run_ok hne hfront
    refine ⟨n.truncate k hk, ⟨t₁.error.scale (1 / fixed.scale), head, method⟩, record,
      Network.ofLayers_layers (n.truncate k hk), ?_, ?_, rfl, ?_, hbounds⟩
    · refine propagate_eq_ok.mpr ⟨?_, _, start, method, t₁, head, fixedPoint_truncate hf k hk, hs,
        hfront, rfl⟩
      rw [n.inputDim_truncate, hd]
    · simp [← hhead]
    · rw [List.getLast?_eq_getElem?, hhead] at hrecord
      rw [List.getElem?_append_left (by omega), hrecord]
  · have hne : fixed.layers ≠ [] := by
      rw [← List.length_pos_iff, hlen, List.length_pos_iff]
      exact n.nonempty
    exact Trajectory.getLast?_of_run_ok hne hr

theorem smallNetwork_truncate :
    ∃ a, propagate .standard smallNetwork .standard smallRegion = .ok a ∧
      ∃ (front : Network ℚ) (b : Analysis ℚ) (record : LayerRecord ℚ),
        Network.ofLayers (smallNetwork.layers.take 1) = .ok front ∧
        propagate .standard front .standard smallRegion = .ok b ∧
        b.trace = a.trace.take 1 ∧ b.method = a.method ∧
        a.trace[0]? = some record ∧ b.errorBounds = .ok record.errorBounds := by
  obtain ⟨a, ha⟩ := smallNetwork_propagates
  have h := propagate_truncate .standard smallNetwork .standard smallRegion a ha
  exact ⟨a, ha, h.1 1 (by decide) (by decide)⟩

end QuantEnclosure
