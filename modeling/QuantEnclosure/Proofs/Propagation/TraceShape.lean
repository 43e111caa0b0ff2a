import QuantEnclosure.Proofs.Propagation.Progress

/-!
The shape of a propagation, in any arithmetic.  The trace has one record for each layer, with the
position and activation of the layer, the number of symbols after it, and counts that cover its
neurons.
-/

namespace QuantEnclosure

open Trajectory

variable {α : Type} [Scalar α]

namespace Trajectory

variable {t t' : Trajectory α} {dim order : Nat}

/-! ## Records -/

theorem sum_countCases (cases : List RoundClampCase) : (countCases cases).sum = cases.length := by
  induction cases with
  | nil => rfl
  | cons c cases ih =>
    simp only [countCases, RoundClampCase.all, List.map_cons, List.map_nil, List.sum_cons,
      List.sum_nil, List.count_cons, List.length_cons] at ih ⊢
    cases c <;> simp <;> omega

/-- There is one relaxation of each kind for every rectified neuron. -/
theorem length_of_activationStep_ok {ceiling : α} {activation : Activation} {relaxed : Relaxed α}
    (h : t.activationStep ceiling activation = .ok (t', relaxed)) (ht : t.Shaped dim order) :
    relaxed.exact.length = rectifiers activation dim ∧
      relaxed.quantized.length = rectifiers activation dim := by
  cases activation with
  | relu =>
    have hlen := length_of_relax_ok (reluStep_eq_ok h).1
    rw [ht.exact_dim] at hlen
    exact hlen
  | identity =>
    cases h
    exact ⟨rfl, rfl⟩

/-- A record that fits a layer of the given activation and width at position `index`, after which
there are `order` symbols. -/
structure Records (record : LayerRecord α) (index : Nat) (activation : Activation)
    (width order : Nat) : Prop where
  index_eq : record.index = index
  activation_eq : record.activation = activation
  exactGenerators_eq : record.exactGenerators = order
  errorGenerators_eq : record.errorGenerators = order
  length_errorBounds : record.errorBounds.length = width
  sum_cases : record.cases.sum = rectifiers activation width
  unstable_le : record.unstable ≤ rectifiers activation width

/-- The record of a layer fits it. -/
theorem step_records {scale ceiling : α} {index : Nat} {l : LiftedLayer α} (hl : l.Fits)
    {record : LayerRecord α} (h : t.step scale ceiling index l = .ok (t', record))
    (ht : t.Shaped dim order) :
    Records record index l.activation l.outputDim
      (order + 2 * rectifiers l.activation l.outputDim) := by
  have ht' := step_shaped hl h ht
  obtain ⟨t₁, relaxed, bounds, ha, hr, hb, rfl⟩ := step_eq_ok h
  have ht₁ := (affineStep_eq_ok ha).shaped hl ht
  have hbounds := Zonotope.length_of_hull_ok hb
  rw [Zonotope.dim_scale] at hbounds
  refine ⟨rfl, rfl, ht'.exact_order, ht'.error_order, hbounds.trans ht'.error_dim, ?_, ?_⟩
  · rw [sum_countCases, List.length_map]
    exact (length_of_activationStep_ok hr ht₁).2
  · rw [← (length_of_activationStep_ok hr ht₁).1]
    exact List.countP_le_length

def rectifiersOf (layers : List (LiftedLayer α)) : Nat :=
  (layers.map fun l => rectifiers l.activation l.outputDim).sum

def dimAfter (dim : Nat) (layers : List (LiftedLayer α)) : Nat :=
  (layers.getLast?.map LiftedLayer.outputDim).getD dim

/-- A run gives one fitting record for each layer, and the shape of the last layer. -/
theorem run_shaped {scale ceiling : α} {index : Nat} {layers : List (LiftedLayer α)}
    (hl : ∀ l ∈ layers, l.Fits) {records : List (LayerRecord α)}
    (h : t.run scale ceiling index layers = .ok (t', records)) (ht : t.Shaped dim order) :
    records.length = layers.length ∧
      (∀ (k : Nat) (hr : k < records.length) (hk : k < layers.length),
        Records records[k] (index + k) layers[k].activation layers[k].outputDim
          (order + 2 * rectifiersOf (layers.take (k + 1)))) ∧
      t'.Shaped (dimAfter dim layers) (order + 2 * rectifiersOf layers) := by
  induction layers generalizing t index records dim order with
  | nil =>
    cases h
    exact ⟨rfl, fun k hr => absurd hr (Nat.not_lt_zero k), ht⟩
  | cons l layers ih =>
    obtain ⟨t₁, record, tail, hs, hr, rfl⟩ := run_cons_eq_ok.mp h
    have ht₁ := step_shaped (hl l (List.mem_cons_self ..)) hs ht
    have hrec := step_records (hl l (List.mem_cons_self ..)) hs ht
    obtain ⟨hlen, hall, ht'⟩ := ih (fun k hk => hl k (List.mem_cons_of_mem _ hk)) hr ht₁
    have hsum : ∀ ls : List (LiftedLayer α), rectifiersOf (l :: ls) =
        rectifiers l.activation l.outputDim + rectifiersOf ls := by
      intro ls
      simp [rectifiersOf]
    have horder : ∀ ls : List (LiftedLayer α), order + 2 * rectifiersOf (l :: ls) =
        order + 2 * rectifiers l.activation l.outputDim + 2 * rectifiersOf ls := by
      intro ls
      rw [hsum]
      omega
    refine ⟨by simp [hlen], ?_, ?_⟩
    · intro k hr' hk
      rw [List.take_succ_cons, horder]
      cases k with
      | zero => simpa [rectifiersOf] using hrec
      | succ k =>
        rw [show index + (k + 1) = index + 1 + k by omega]
        exact hall k (by simpa using hr') (by simpa using hk)
    · have hdim : dimAfter dim (l :: layers) = dimAfter l.outputDim layers := by
        cases layers with
        | nil => rfl
        | cons _ _ => rfl
      rw [hdim, horder]
      exact ht'

end Trajectory

/-! ## The trace -/

section

variable (scale : α) (quantWeight quantBias : α → α)

theorem rectifiersOf_liftLayers (layers : List (Layer α)) :
    rectifiersOf (liftLayers scale quantWeight quantBias layers) =
      (layers.map fun l => rectifiers l.activation l.outputDim).sum := by
  rw [rectifiersOf]
  exact congrArg List.sum
    (map_liftLayers scale quantWeight quantBias (fun a _ width => rectifiers a width) layers)

theorem dimAfter_liftLayers (dim : Nat) (n : Network α) :
    dimAfter dim (liftLayers scale quantWeight quantBias n.layers) = n.outputDim := by
  have hmap := map_liftLayers scale quantWeight quantBias (fun _ _ width => width) n.layers
  rw [dimAfter, ← List.getLast?_map, hmap, List.getLast?_map,
    List.getLast?_eq_some_getLast n.nonempty]
  rfl

end

/-- Every record of a trace fits its layer: its position and activation, the symbols that the
region, the rounding of its coordinates and the rectifiers so far have brought, and counts that
cover the neurons of a rectifier.  The error has the shape of the last layer. -/
theorem propagate_trace_shape (cfg : EngineConfig) (n : Network α) (c : Config)
    (region : Zonotope α) (a : Analysis α) (h : propagate cfg n c region = .ok a) :
    a.trace.length = n.layers.length ∧
      (∀ (k : Nat) (hr : k < a.trace.length) (hk : k < n.layers.length),
        a.trace[k].index = k ∧
        a.trace[k].activation = n.layers[k].activation ∧
        a.trace[k].exactGenerators = region.order + region.dim + 2 * ((n.layers.take (k + 1)).map
          fun l => rectifiers l.activation l.outputDim).sum ∧
        a.trace[k].errorGenerators = a.trace[k].exactGenerators ∧
        a.trace[k].errorBounds.length = n.layers[k].outputDim ∧
        a.trace[k].cases.sum = rectifiers n.layers[k].activation n.layers[k].outputDim ∧
        a.trace[k].unstable ≤ rectifiers n.layers[k].activation n.layers[k].outputDim) ∧
      a.error.dim = n.outputDim ∧
      (a.trace.getLast?.map LayerRecord.errorGenerators) = some a.error.order := by
  obtain ⟨hd, fixed, start, method, t, trace, hf, hs, hr, rfl⟩ := propagate_eq_ok.mp h
  obtain ⟨quantWeight, quantBias, _, _, _, rfl⟩ := fixedPoint_eq_ok hf
  obtain ⟨hlen, hrec, ht⟩ := run_shaped (fits_of_mem_liftLayers _ _ _) hr (start_shaped hs)
  rw [length_liftLayers] at hlen
  rw [dimAfter_liftLayers] at ht
  have hne : 0 < n.layers.length := List.length_pos_iff.mpr n.nonempty
  refine ⟨hlen, ?_, (Zonotope.dim_scale _ _).trans ht.error_dim, ?_⟩
  · intro k hr hk
    obtain ⟨hact, _, hout⟩ := getElem_liftLayers c.scale quantWeight quantBias n.layers k
      (by simpa using hk) hk
    have := hrec k hr (by simpa using hk)
    rw [hact, hout, ← liftLayers_take, rectifiersOf_liftLayers, Nat.zero_add] at this
    exact ⟨this.index_eq, this.activation_eq, this.exactGenerators_eq,
      this.errorGenerators_eq.trans this.exactGenerators_eq.symm, this.length_errorBounds,
      this.sum_cases, this.unstable_le⟩
  · have hlast : n.layers.length - 1 < trace.length := by omega
    have := (hrec (n.layers.length - 1) hlast (by simp; omega)).errorGenerators_eq
    rw [← liftLayers_take, Nat.sub_add_cancel hne, List.take_length] at this
    rw [List.getLast?_eq_getElem?, hlen, List.getElem?_eq_getElem hlast, Option.map_some, this,
      Zonotope.order_scale, ht.error_order]

/-- One symbol of the region, one for each of its two coordinates, and two for each of the two
rectifiers. -/
theorem smallNetwork_trace_shape :
    ∃ a, propagate .standard smallNetwork .standard smallRegion = .ok a ∧ a.trace.length = 2 ∧
      (∀ (k : Nat) (hk : k < a.trace.length), a.trace[k].exactGenerators = 7) ∧
      a.error.dim = 1 := by
  obtain ⟨a, ha⟩ := smallNetwork_propagates
  obtain ⟨hlen, hrec, hdim, _⟩ :=
    propagate_trace_shape .standard smallNetwork .standard smallRegion a ha
  refine ⟨a, ha, hlen, ?_, hdim⟩
  intro k hk
  rw [(hrec k hk (hlen ▸ hk)).2.2.1]
  rw [show a.trace.length = 2 from hlen] at hk
  obtain rfl | rfl : k = 0 ∨ k = 1 := by omega
  · rfl
  · rfl

end QuantEnclosure
