import QuantEnclosure.Proofs.Propagation.Progress
import QuantEnclosure.Proofs.Propagation.Tracking

/-!
The passes of a network in exact arithmetic.  The real pass through the lifted layers, taken back
from the integer domain, is the plain pass, for every scale (`forwardReal_liftLayers`); the
quantized pass always has a value, with as many entries as the real one (`runQuantized_ok`).  So
what a lifted network reports as its error is the quantized minus the plain value of the network.
-/

namespace QuantEnclosure

open Scalar

theorem inputDim_liftLayers {α : Type} [Scalar α] (n : Network α) (input : Format)
    (scale ceiling : α) (quantWeight quantBias : α → α) :
    FixedPointNetwork.inputDim
      { layers := liftLayers scale quantWeight quantBias n.layers
        input := input
        scale := scale
        ceiling := ceiling } = n.inputDim := by
  obtain ⟨layers, hne, _⟩ := n
  cases layers with
  | nil => exact absurd rfl hne
  | cons first rest => rfl

theorem forward_eq (n : Network ℚ) {x : List ℚ} (h : n.inputDim = x.length) :
    n.forward x = .ok (n.layers.foldl (fun y l => l.apply y) x) :=
  ensureDim_bind_eq_ok.mpr ⟨h, rfl⟩

/-- The quantized pass rounds the input, passes the lifted layers and goes back to real units. -/
theorem forwardQuantized_eq (n : Network ℚ) {c : Config} (hv : c.validate = .ok ())
    {x result : List ℚ} (hd : n.inputDim = x.length)
    (h : FixedPointNetwork.runQuantized c.ceiling
      (liftLayers c.scale c.weights.rounded c.biases.rounded n.layers)
      (x.map c.input.rounded) = .ok result) :
    n.forwardQuantized c x = .ok (result.map (· / c.scale)) := by
  have hinput := (Config.validate_eq_ok.mp hv).input
  refine bind_eq_ok.mpr ⟨_, fixedPoint_ok n hv, ?_⟩
  refine ensureDim_bind_eq_ok.mpr ⟨(inputDim_liftLayers ..).trans hd, ?_⟩
  refine bind_eq_ok.mpr ⟨_, Format.quantizeVec_eq hinput x, ?_⟩
  exact bind_eq_ok.mpr ⟨result, h, rfl⟩

/-! ## The real pass -/

/-- Going back to real units undoes the lift. -/
theorem scale_map_div {f : ℚ} (hf : f ≠ 0) (xs : List ℚ) : (Vec.scale f xs).map (· / f) = xs := by
  apply List.ext_getElem
  · simp
  · intro i _ _
    simp [Vec.scale, hf]

/-- The lifted real pass, taken back, is the plain pass; an input of another length is refused in
the same way. -/
theorem forwardReal_liftLayers (n : Network ℚ) (c : Config) (quantWeight quantBias : ℚ → ℚ)
    (x : List ℚ) :
    FixedPointNetwork.forwardReal
      { layers := liftLayers c.scale quantWeight quantBias n.layers
        input := c.input
        scale := c.scale
        ceiling := c.ceiling } x = n.forward x := by
  unfold FixedPointNetwork.forwardReal Network.forward
  rw [inputDim_liftLayers]
  dsimp only
  rw [runReal_liftLayers quantWeight quantBias c.scale_pos.le n.nonempty,
    scale_map_div c.scale_pos.ne']

/-! ## The quantized pass -/

theorem Activation.length_apply (a : Activation) (xs : List ℚ) :
    (a.apply xs).length = xs.length := by
  cases a with
  | relu => exact List.length_map _
  | identity => rfl

theorem quantActivation_ok {c : ℤ} (hc : 0 ≤ c) (a : Activation) (xs : List ℚ) :
    ∃ ys, FixedPointNetwork.quantActivation (c : ℚ) a xs = .ok ys ∧ ys.length = xs.length := by
  cases a with
  | relu => exact ⟨_, Trajectory.quantActivation_relu hc xs, List.length_map _⟩
  | identity => exact ⟨xs, rfl, rfl⟩

/-- The quantized pass through lifted layers has a value, of the length of the real pass. -/
theorem runQuantized_ok {c : ℤ} (hc : 0 ≤ c) {layers : List (LiftedLayer ℚ)}
    (hl : ∀ l ∈ layers, l.Fits) {quantized real : List ℚ} (h : quantized.length = real.length) :
    ∃ result, FixedPointNetwork.runQuantized (c : ℚ) layers quantized = .ok result ∧
      result.length = (FixedPointNetwork.runReal layers real).length := by
  induction layers generalizing quantized real with
  | nil => exact ⟨quantized, rfl, h⟩
  | cons l layers ih =>
    have hfits := hl l (List.mem_cons_self ..)
    obtain ⟨ys, hys, hlen⟩ := quantActivation_ok hc l.activation
      (Vec.add (l.quantWeight.mulVec quantized) l.quantBias)
    have hstep : ys.length =
        (l.activation.apply (Vec.add (l.weight.mulVec real) l.bias)).length := by
      rw [hlen, Activation.length_apply]
      simp [hfits.height_eq, hfits.bias_eq, hfits.quantBias_eq]
    obtain ⟨result, hresult, hr⟩ := ih (fun k hk => hl k (List.mem_cons_of_mem _ hk)) hstep
    exact ⟨result, bind_eq_ok.mpr ⟨ys, hys, hresult⟩, hr⟩

/-! ## The error of a lifted network -/

/-- A network gives as many numbers as its last layer. -/
theorem length_of_forward_ok {n : Network ℚ} {x y : List ℚ} (h : n.forward x = .ok y) :
    y.length = n.outputDim := by
  have happly : ∀ (l : Layer ℚ) (z : List ℚ), (l.apply z).length = l.outputDim := by
    intro l z
    rw [Layer.apply, Activation.length_apply]
    simp [Layer.affine, Layer.outputDim, l.bias_length]
  have hlast : n.layers.foldl (fun z l => l.apply z) x =
      (n.layers.getLast n.nonempty).apply (n.layers.dropLast.foldl (fun z l => l.apply z) x) := by
    conv_lhs => rw [← List.dropLast_append_getLast n.nonempty, List.foldl_append]
    rfl
  obtain ⟨_, h⟩ := ensureDim_bind_eq_ok.mp h
  rw [← Except.ok.inj h, hlast, happly, Network.outputDim]

/-- The error of the lifted network is the quantized minus the plain value of the network, which
both exist. -/
theorem exists_error_eq {n : Network ℚ} {c : Config} {fixed : FixedPointNetwork ℚ}
    (hf : n.fixedPoint c = .ok fixed) {x : List ℚ} (hd : n.inputDim = x.length) :
    ∃ quantized real, n.forwardQuantized c x = .ok quantized ∧ n.forward x = .ok real ∧
      quantized.length = real.length ∧ fixed.error x = .ok (Vec.sub quantized real) := by
  obtain ⟨_, _, hv, _, _, _⟩ := fixedPoint_eq_ok hf
  obtain rfl := Except.ok.inj ((fixedPoint_ok n hv).symm.trans hf)
  obtain ⟨k, hk, hk₁⟩ := Config.exists_ceiling_eq (Config.validate_eq_ok.mp hv)
  have hreal := (forwardReal_liftLayers n c c.weights.rounded c.biases.rounded x).trans
    (forward_eq n hd)
  have hlift : (x.map c.input.rounded).length = x.length := List.length_map _
  obtain ⟨result, hresult, hlen⟩ := runQuantized_ok (c := k) (by omega)
    (fits_of_mem_liftLayers c.scale c.weights.rounded c.biases.rounded) hlift
  rw [← hk] at hresult
  rw [runReal_liftLayers _ _ c.scale_pos.le n.nonempty, Vec.length_scale] at hlen
  have hquantized := forwardQuantized_eq n hv hd hresult
  refine ⟨_, _, hquantized, forward_eq n hd, by rw [List.length_map, hlen], ?_⟩
  rw [Network.forwardQuantized, hf] at hquantized
  exact bind_eq_ok.mpr ⟨_, hquantized, bind_eq_ok.mpr ⟨_, hreal, rfl⟩⟩

/-- For every valid configuration the real pass of the lifted network is the plain pass, with the
same refusal of an input of the wrong length; so its error is the quantized minus the plain value,
and for every input of the right length it has one. -/
theorem forwardReal_eq_forward (n : Network ℚ) (c : Config) (hv : c.validate = .ok ())
    (x : List ℚ) :
    ∃ fixed, n.fixedPoint c = .ok fixed ∧
      fixed.forwardReal x = n.forward x ∧
      (n.inputDim ≠ x.length →
        fixed.forwardReal x =
          .error (.refused (.shapeMismatch "network input" [n.inputDim] [x.length])) ∧
        fixed.error x =
          .error (.refused (.shapeMismatch "network input" [n.inputDim] [x.length]))) ∧
      (n.inputDim = x.length →
        ∃ quantized real, n.forwardQuantized c x = .ok quantized ∧ n.forward x = .ok real ∧
          quantized.length = real.length ∧ fixed.error x = .ok (Vec.sub quantized real)) := by
  have hc := Config.validate_eq_ok.mp hv
  obtain ⟨k, hk, hk₁⟩ := Config.exists_ceiling_eq hc
  have hfixed := fixedPoint_ok n hv
  have hreal := forwardReal_liftLayers n c c.weights.rounded c.biases.rounded x
  refine ⟨_, hfixed, hreal, ?_, ?_⟩
  · intro hd
    have hdim := ensureDim_of_ne "network input" hd
    constructor
    · rw [hreal]
      unfold Network.forward
      rw [hdim]
      rfl
    · unfold FixedPointNetwork.error FixedPointNetwork.forwardQuantized
      rw [inputDim_liftLayers, hdim]
      rfl
  · intro hd
    have hforward := forward_eq n hd
    have hfits : ∀ l ∈ liftLayers c.scale c.weights.rounded c.biases.rounded n.layers, l.Fits :=
      fits_of_mem_liftLayers _ _ _
    have hlift : (x.map c.input.rounded).length = x.length := List.length_map _
    obtain ⟨result, hresult, hlen⟩ := runQuantized_ok (c := k) (by omega) hfits hlift
    rw [← hk] at hresult
    rw [runReal_liftLayers _ _ c.scale_pos.le n.nonempty, Vec.length_scale] at hlen
    have hquantized := forwardQuantized_eq n hv hd hresult
    refine ⟨_, _, hquantized, hforward, by rw [List.length_map, hlen], ?_⟩
    unfold Network.forwardQuantized at hquantized
    rw [hfixed] at hquantized
    exact bind_eq_ok.mpr ⟨_, hquantized, bind_eq_ok.mpr ⟨_, hreal.trans hforward, rfl⟩⟩

/-- Activations are counted in steps of four: the scale is `1/4`. -/
def coarseConfig : Config := { Config.standard with activations := ⟨.positiveOnly, 10, -2⟩ }

theorem smallNetwork_forwardReal :
    coarseConfig.validate = .ok () ∧
      ∃ fixed quantized real, smallNetwork.fixedPoint coarseConfig = .ok fixed ∧
        fixed.forwardReal [1 / 3, 5] = .ok real ∧ smallNetwork.forward [1 / 3, 5] = .ok real ∧
        smallNetwork.forwardQuantized coarseConfig [1 / 3, 5] = .ok quantized ∧
        fixed.error [1 / 3, 5] = .ok (Vec.sub quantized real) := by
  obtain ⟨fixed, hf, hreal, _, hok⟩ :=
    forwardReal_eq_forward smallNetwork coarseConfig rfl [1 / 3, 5]
  obtain ⟨quantized, real, hquantized, hforward, _, herror⟩ := hok rfl
  exact ⟨rfl, fixed, quantized, real, hf, hreal.trans hforward, hforward, hquantized, herror⟩

end QuantEnclosure
