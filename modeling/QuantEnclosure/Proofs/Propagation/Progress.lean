import QuantEnclosure.Proofs.Format.Region
import QuantEnclosure.Proofs.Propagation.Alignment
import QuantEnclosure.Proofs.Relaxation.ClosedForm

/-!
The propagation never gets stuck in exact arithmetic.  An aligned trajectory passes every layer
that takes its dimension (`step_ok`), so it passes all layers of a network (`run_ok`); the input
region gives such a trajectory whenever its method of quantization can be applied (`start_ok`).
Together: a valid configuration and a region of the right dimension give an analysis
(`propagate_ok`).
-/

namespace QuantEnclosure

/-- Numbers in exact arithmetic are finite, so only the shapes have to agree. -/
theorem Zonotope.ofParts_ok (center : List ℚ) (generators : Matrix ℚ)
    (h : center.length = generators.height) :
    ∃ z, ofParts center generators = .ok z ∧ z.dim = generators.height := by
  refine ⟨⟨center, generators, h.symm⟩, ensureDim_bind_eq_ok.mpr ⟨h, ?_⟩, h⟩
  simp [Vec.isFinite, Matrix.isFinite]

/-! ## Layers in a row -/

def Chained {α : Type} [Scalar α] : Nat → List (LiftedLayer α) → Prop
  | _, [] => True
  | dim, l :: rest => l.inputDim = dim ∧ l.Fits ∧ Chained l.outputDim rest

section

variable {α : Type} [Scalar α] (scale : α) (quantWeight quantBias : α → α)

theorem chained_later (first : Layer α) (rest : List (Layer α)) (h : Linked (first :: rest)) :
    Chained first.outputDim (rest.map (.ofLayer 1 scale quantWeight quantBias)) := by
  induction rest generalizing first with
  | nil => exact trivial
  | cons l rest ih =>
    refine ⟨h.1.symm, LiftedLayer.fits_ofLayer .., ?_⟩
    rw [LiftedLayer.outputDim_ofLayer]
    exact ih l h.2

/-- The layers of a network fit in a row from its input dimension on. -/
theorem chained_liftLayers (n : Network α) :
    Chained n.inputDim (liftLayers scale quantWeight quantBias n.layers) := by
  obtain ⟨layers, hne, hlinked⟩ := n
  cases layers with
  | nil => exact absurd rfl hne
  | cons first rest =>
    refine ⟨rfl, LiftedLayer.fits_ofLayer .., ?_⟩
    rw [LiftedLayer.outputDim_ofLayer]
    exact chained_later scale quantWeight quantBias first rest hlinked

end

namespace Trajectory

variable {t : Trajectory ℚ} {dim order : Nat}

/-! ## One layer -/

theorem affineStep_ok {l : LiftedLayer ℚ} (hl : l.Fits) (ht : t.Shaped l.inputDim order) :
    ∃ t', t.affineStep l = .ok t' := by
  have hh := hl.height_eq
  have hb := hl.bias_eq
  have hq := hl.quantBias_eq
  obtain ⟨error, he, _⟩ := Zonotope.ofParts_ok (Vec.add
      (Vec.add ((l.quantWeight.sub l.weight).mulVec t.exact.center)
        (l.quantWeight.mulVec t.error.center)) (Vec.sub l.quantBias l.bias))
    (((l.quantWeight.sub l.weight).mul t.exact.generators).add
      (l.quantWeight.mul t.error.generators)) (by simp [hh, hb, hq])
  obtain ⟨exact, hx⟩ := Zonotope.affineMap_ok t.exact ht.exact_dim.symm hb.symm
  refine ⟨⟨exact, error⟩, bind_eq_ok.mpr ⟨(), ht.ensureAligned_ok, ?_⟩⟩
  refine ensureDim_bind_eq_ok.mpr ⟨ht.exact_dim.symm, ?_⟩
  exact bind_eq_ok.mpr ⟨error, he, bind_eq_ok.mpr ⟨exact, hx, rfl⟩⟩

theorem relax_ok {c : ℤ} (hc : 1 ≤ c) (ht : t.Shaped dim order) :
    ∃ r, t.relax (c : ℚ) = .ok r := by
  obtain ⟨quantized, hq⟩ := Zonotope.sum_ok (ht.exact_dim.trans ht.error_dim.symm)
  refine ⟨⟨t.exact.box.map reluRelaxation,
    quantized.box.map fun b => (staircaseRelaxation b c, (roundClampFormula b c).2)⟩, ?_⟩
  refine bind_eq_ok.mpr ⟨quantized, hq, ?_⟩
  refine bind_eq_ok.mpr ⟨_, t.exact.finiteHull_eq, ?_⟩
  refine bind_eq_ok.mpr ⟨_, quantized.finiteHull_eq, ?_⟩
  exact bind_eq_ok.mpr ⟨_, mapM_ok _ fun b _ => roundClampRelaxation_eq b hc, rfl⟩

theorem reluStep_ok {c : ℤ} (hc : 1 ≤ c) (ht : t.Shaped dim order) :
    ∃ t' r, t.reluStep (c : ℚ) = .ok (t', r) := by
  obtain ⟨r, hr⟩ := relax_ok hc ht
  obtain ⟨hx, hq⟩ := length_of_relax_ok hr
  have hxd := ht.exact_dim
  have hed := ht.error_dim
  obtain ⟨e₁, he₁, hd₁⟩ := Zonotope.ofParts_ok (Vec.add
      (Vec.add (Vec.mul (Vec.sub r.quantSlope r.slope) t.exact.center)
        (Vec.mul r.quantSlope t.error.center)) (Vec.sub r.quantOffset r.offset))
    ((t.exact.generators.scaleRows (Vec.sub r.quantSlope r.slope)).add
      (t.error.generators.scaleRows r.quantSlope)) (by simp [*])
  obtain ⟨e₂, he₂, hd₂⟩ := Zonotope.appendColumns_ok e₁
    (Matrix.diagonal (r.residue.map (- ·))) (by simp [*])
  obtain ⟨e₃, he₃, _⟩ := Zonotope.appendColumns_ok e₂
    (Matrix.diagonal r.quantResidue) (by simp [*])
  obtain ⟨x₁, hx₁, hd₃⟩ := Zonotope.ofParts_ok
    (Vec.add (Vec.mul r.slope t.exact.center) r.offset)
    (t.exact.generators.scaleRows r.slope) (by simp [*])
  obtain ⟨x₂, hx₂, _⟩ := Zonotope.appendColumns_ok x₁
    (Matrix.diagonal r.residue) (by simp [*])
  refine ⟨⟨x₂.pad t.exact.dim, e₃⟩, r, bind_eq_ok.mpr ⟨(), ht.ensureAligned_ok, ?_⟩⟩
  refine bind_eq_ok.mpr ⟨r, hr, ?_⟩
  refine bind_eq_ok.mpr ⟨_, Zonotope.rowScaling_ok (Vec.sub r.quantSlope r.slope) _
    (by simp [*]), ?_⟩
  refine bind_eq_ok.mpr ⟨_, Zonotope.rowScaling_ok r.quantSlope _ (by simp [*]), ?_⟩
  refine bind_eq_ok.mpr ⟨e₁, he₁, bind_eq_ok.mpr ⟨e₂, he₂, bind_eq_ok.mpr ⟨e₃, he₃, ?_⟩⟩⟩
  refine bind_eq_ok.mpr ⟨_, Zonotope.rowScaling_ok r.slope _ (by simp [*]), ?_⟩
  exact bind_eq_ok.mpr ⟨x₁, hx₁, bind_eq_ok.mpr ⟨x₂, hx₂, rfl⟩⟩

theorem activationStep_ok {c : ℤ} (hc : 1 ≤ c) (activation : Activation)
    (ht : t.Shaped dim order) : ∃ t' r, t.activationStep (c : ℚ) activation = .ok (t', r) := by
  cases activation with
  | relu => exact reluStep_ok hc ht
  | identity => exact ⟨t, ⟨[], []⟩, rfl⟩

/-- A layer that fits the trajectory can be passed. -/
theorem step_ok (scale : ℚ) {c : ℤ} (hc : 1 ≤ c) (index : Nat) {l : LiftedLayer ℚ} (hl : l.Fits)
    (ht : t.Shaped l.inputDim order) :
    ∃ t' record, t.step scale (c : ℚ) index l = .ok (t', record) := by
  obtain ⟨t₁, ha⟩ := affineStep_ok hl ht
  have ht₁ := (affineStep_eq_ok ha).shaped hl ht
  obtain ⟨t₂, r, hr⟩ := activationStep_ok hc l.activation ht₁
  exact ⟨_, _, bind_eq_ok.mpr ⟨t₁, ha, bind_eq_ok.mpr ⟨(t₂, r), hr,
    bind_eq_ok.mpr ⟨_, Zonotope.hull_eq _, rfl⟩⟩⟩⟩

/-- Layers that fit in a row can be passed one after the other. -/
theorem run_ok (scale : ℚ) {c : ℤ} (hc : 1 ≤ c) (index : Nat) {layers : List (LiftedLayer ℚ)}
    (hl : Chained dim layers) (ht : t.Shaped dim order) :
    ∃ t' records, t.run scale (c : ℚ) index layers = .ok (t', records) := by
  induction layers generalizing t index dim order with
  | nil => exact ⟨t, [], rfl⟩
  | cons l rest ih =>
    obtain ⟨rfl, hfits, hrest⟩ := hl
    obtain ⟨t₁, record, hs⟩ := step_ok scale hc index hfits ht
    obtain ⟨t₂, records, hr⟩ := ih (index + 1) hrest (step_shaped hfits hs ht)
    exact ⟨t₂, record :: records, run_cons_eq_ok.mpr ⟨t₁, record, records, hs, hr, rfl⟩⟩

/-! ## The input region -/

theorem inputError_ok {f : Format} (hf : f.Valid) (hull quantized : Bound ℚ)
    (radius quantizedRadius : ℚ) :
    ∃ e, inputError f hull quantized radius quantizedRadius = .ok e := by
  unfold inputError
  split
  · exact ⟨_, rfl⟩
  · exact ⟨_, bind_eq_ok.mpr ⟨_, Format.errorRange_eq hf hull, rfl⟩⟩

theorem inputErrors_ok {f : Format} (hf : f.Valid) (hs qs : List (Bound ℚ)) (rs ss : List ℚ) :
    ∃ errors, inputErrors f hs qs rs ss = .ok errors := by
  rw [inputErrors_eq_mapM]
  exact exists_mapM_ok _ fun p _ => inputError_ok hf ..

/-- A region to which the method can be applied gives a trajectory. -/
theorem start_ok (cfg : EngineConfig) {f : Format} (hf : f.Valid) {region : Zonotope ℚ}
    (hm : Format.Admits cfg.method region.dim cfg.vertexLimit) :
    ∃ t method, start cfg f region = .ok (t, method) := by
  obtain ⟨method, hq⟩ := Format.quantizeRegion_eq hf region hm
  generalize Zonotope.ofBox (f.roundedBox region.box) = quantized at hq
  have hqd : quantized.dim = region.dim := by
    rw [Format.quantizeRegion_eq_ok hf hq]
    simp
  obtain ⟨errors, he⟩ := inputErrors_ok hf region.box quantized.box region.radii quantized.radii
  have hlen := length_of_inputErrors_ok he (by simp [hqd]) (by simp) (by simp [hqd])
  rw [Zonotope.length_box] at hlen
  obtain ⟨e₁, he₁, hd₁⟩ := Zonotope.ofParts_ok (Vec.sub quantized.center region.center)
    (region.generators.scaleRows (errors.map Prod.fst)) (by simp [*])
  obtain ⟨e₂, he₂, _⟩ := Zonotope.appendColumns_ok e₁ (Matrix.diagonal (errors.map Prod.snd))
    (by simp [*])
  refine ⟨⟨region.pad region.dim, e₂⟩, method, bind_eq_ok.mpr ⟨_, region.finiteHull_eq, ?_⟩⟩
  refine bind_eq_ok.mpr ⟨(quantized, method), hq, ?_⟩
  refine bind_eq_ok.mpr ⟨_, quantized.hull_eq, bind_eq_ok.mpr ⟨errors, he, ?_⟩⟩
  refine bind_eq_ok.mpr ⟨_, Zonotope.rowScaling_ok (errors.map Prod.fst) _ (by simp [*]), ?_⟩
  exact bind_eq_ok.mpr ⟨e₁, he₁, bind_eq_ok.mpr ⟨e₂, he₂, rfl⟩⟩

end Trajectory

/-! ## The whole propagation -/

theorem fixedPoint_ok (n : Network ℚ) {c : Config} (h : c.validate = .ok ()) :
    n.fixedPoint c = .ok
      { layers := liftLayers c.scale c.weights.rounded c.biases.rounded n.layers
        input := c.input
        scale := c.scale
        ceiling := c.ceiling } := by
  have hc := Config.validate_eq_ok.mp h
  refine bind_eq_ok.mpr ⟨(), h, ?_⟩
  refine bind_eq_ok.mpr ⟨_, Format.quantizer_eq hc.weights, ?_⟩
  exact bind_eq_ok.mpr ⟨_, Format.quantizer_eq hc.biases, rfl⟩

/-- A valid configuration and a region of the right dimension give an analysis, if the method of
quantization can be applied to the region. -/
theorem propagate_ok (cfg : EngineConfig) (n : Network ℚ) {c : Config} {region : Zonotope ℚ}
    (hv : c.validate = .ok ()) (hd : region.dim = n.inputDim)
    (hm : Format.Admits cfg.method region.dim cfg.vertexLimit) :
    ∃ a, propagate cfg n c region = .ok a := by
  have hc := Config.validate_eq_ok.mp hv
  obtain ⟨k, hk, hk₁⟩ := Config.exists_ceiling_eq hc
  obtain ⟨t, method, hs⟩ := Trajectory.start_ok cfg hc.input hm
  have ht := Trajectory.start_shaped hs
  rw [hd] at ht
  obtain ⟨t', trace, hr⟩ := Trajectory.run_ok c.scale hk₁ 0
    (chained_liftLayers c.scale c.weights.rounded c.biases.rounded n) ht
  refine ⟨⟨t'.error.scale (1 / c.scale), trace, method⟩, propagate_eq_ok.mpr ⟨hd.symm, ?_⟩⟩
  rw [← hk] at hr
  exact ⟨_, t, method, t', trace, fixedPoint_ok n hv, hs, hr, rfl⟩

/-! ## A small network -/

/-- Two rectifiers, of which the first sees both signs over `smallRegion`, and their difference. -/
def smallNetwork : Network ℚ where
  layers :=
    [{ weight := ⟨2, [[1, -2], [-1, 1 / 2]], by decide⟩
       bias := [1 / 8, 1]
       activation := .relu
       bias_length := rfl
       finite := rfl },
     { weight := ⟨2, [[1, -1]], by decide⟩
       bias := [1 / 3]
       activation := .identity
       bias_length := rfl
       finite := rfl }]
  nonempty := List.cons_ne_nil _ _
  linked := ⟨rfl, trivial⟩

/-- The points between `(-1/4, 1/4)` and `(1/4, 0)`. -/
def smallRegion : Zonotope ℚ where
  center := [0, 1 / 8]
  generators := ⟨1, [[1 / 4], [-1 / 8]], by decide⟩
  height_eq := rfl

theorem smallNetwork_propagates : ∃ a, propagate .standard smallNetwork .standard smallRegion =
    .ok a :=
  propagate_ok .standard smallNetwork rfl rfl (Or.inr ⟨by decide, by decide⟩)

end QuantEnclosure
