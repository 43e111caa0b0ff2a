import QuantEnclosure.Proofs.Propagation.Progress

/-!
Totality of the propagation in exact arithmetic: on the inputs that the configuration admits it
gives an analysis, and it never divides by zero.

Division by zero has a value here, so the second part is said through the arithmetic
`Scalar.dividingBy quotient`, where `quotient` may give anything for a zero divisor and is division
otherwise.  A computation that comes out alike for every such `quotient` has not used a quotient by
zero.  What divides is followed from the input region (`inputError_dividingBy`) over the relaxations
(`reluRelaxation_dividingBy`, `roundClampRelaxation_dividingBy`) to a layer (`step_dividingBy`) and
through all layers (`run_dividingBy`).
-/

namespace QuantEnclosure

open Scalar

/-! ## Networks over another division -/

/-- The same parameters over `Scalar.dividingBy quotient`. -/
def Layer.dividingBy (quotient : ℚ → ℚ → ℚ) (l : Layer ℚ) :
    @Layer ℚ (Scalar.dividingBy quotient) :=
  @Layer.mk ℚ (Scalar.dividingBy quotient) l.weight l.bias l.activation l.bias_length l.finite

theorem Linked.dividingBy (quotient : ℚ → ℚ → ℚ) {layers : List (Layer ℚ)} (h : Linked layers) :
    @Linked ℚ (Scalar.dividingBy quotient) (layers.map (Layer.dividingBy quotient)) := by
  induction layers with
  | nil => exact trivial
  | cons a rest ih =>
    cases rest with
    | nil => exact trivial
    | cons b rest => exact ⟨h.1, ih h.2⟩

def Network.dividingBy (quotient : ℚ → ℚ → ℚ) (n : Network ℚ) :
    @Network ℚ (Scalar.dividingBy quotient) :=
  @Network.mk ℚ (Scalar.dividingBy quotient) (n.layers.map (Layer.dividingBy quotient))
    (by simpa using n.nonempty) (n.linked.dividingBy quotient)

section

variable {quotient : ℚ → ℚ → ℚ}

theorem liftLayers_dividingBy (scale : ℚ) (quantWeight quantBias : ℚ → ℚ)
    (layers : List (Layer ℚ)) :
    @liftLayers ℚ (dividingBy quotient) scale quantWeight quantBias
        (layers.map (Layer.dividingBy quotient)) = liftLayers scale quantWeight quantBias layers := by
  cases layers with
  | nil => rfl
  | cons first rest =>
    simp only [List.map_cons, liftLayers, List.map_map]
    rfl

theorem inputDim_dividingBy (n : Network ℚ) :
    @Network.inputDim ℚ (dividingBy quotient) (n.dividingBy quotient) = n.inputDim := by
  obtain ⟨layers, hne, _⟩ := n
  cases layers with
  | nil => exact absurd rfl hne
  | cons first rest => rfl

theorem fixedPoint_dividingBy (n : Network ℚ) (c : Config) :
    @Network.fixedPoint ℚ (dividingBy quotient) (n.dividingBy quotient) c = n.fixedPoint c := by
  unfold Network.fixedPoint
  simp only [Network.dividingBy, liftLayers_dividingBy]
  rfl

/-! ## What does not divide -/

theorem laneSum_dividingBy : @laneSum ℚ (dividingBy quotient) = laneSum := by
  unfold laneSum
  delta Lanes.sum
  rfl

theorem mulVec_dividingBy : @Matrix.mulVec ℚ (dividingBy quotient) = Matrix.mulVec := by
  unfold Matrix.mulVec Matrix.dot
  rw [laneSum_dividingBy]

theorem affineMap_dividingBy :
    @Zonotope.affineMap ℚ (dividingBy quotient) = Zonotope.affineMap := by
  unfold Zonotope.affineMap
  simp only [mulVec_dividingBy]
  rfl

theorem affineStep_dividingBy :
    @Trajectory.affineStep ℚ (dividingBy quotient) = Trajectory.affineStep := by
  unfold Trajectory.affineStep
  rw [mulVec_dividingBy, affineMap_dividingBy]
  rfl

theorem hull_dividingBy : @Zonotope.hull ℚ (dividingBy quotient) = Zonotope.hull := by
  unfold Zonotope.hull Zonotope.radii
  rw [laneSum_dividingBy]
  rfl

theorem finiteHull_dividingBy :
    @Zonotope.finiteHull ℚ (dividingBy quotient) = Zonotope.finiteHull := by
  unfold Zonotope.finiteHull
  rw [hull_dividingBy]
  delta Zonotope.firstUnbounded
  rfl

theorem boxAround_dividingBy : @Box.around ℚ (dividingBy quotient) = Box.around := by
  funext points
  cases points with
  | nil => rfl
  | cons v rest =>
    unfold Box.around
    delta Box.insertAll
    rfl

variable (hq : ∀ x d, d ≠ 0 → quotient x d = x / d)
include hq

/-! ## The input region -/

theorem midpoint_dividingBy : @Bound.midpoint ℚ (dividingBy quotient) = Bound.midpoint := by
  unfold Bound.midpoint
  rw [half_dividingBy (hq 1 2 two_ne_zero)]

theorem radius_dividingBy : @Bound.radius ℚ (dividingBy quotient) = Bound.radius := by
  unfold Bound.radius
  rw [half_dividingBy (hq 1 2 two_ne_zero)]

theorem ofBox_dividingBy : @Zonotope.ofBox ℚ (dividingBy quotient) = Zonotope.ofBox := by
  unfold Zonotope.ofBox
  simp only [midpoint_dividingBy hq, radius_dividingBy hq]
  rfl

theorem quantizeRegion_dividingBy :
    @Format.quantizeRegion ℚ (dividingBy quotient) = Format.quantizeRegion := by
  unfold Format.quantizeRegion Format.closedRegion Format.enumerateRegion
  rw [ofBox_dividingBy hq, finiteHull_dividingBy, boxAround_dividingBy]
  rfl

theorem errorRange_dividingBy :
    @Format.errorRange ℚ (dividingBy quotient) = Format.errorRange := by
  unfold Format.errorRange
  rw [half_dividingBy (hq 1 2 two_ne_zero)]
  rfl

/-- The slope of a coordinate is a quotient by its radius, and a coordinate without radius has
none. -/
theorem inputError_dividingBy :
    @Trajectory.inputError ℚ (dividingBy quotient) = Trajectory.inputError := by
  funext f hull quantized radius quantizedRadius
  unfold Trajectory.inputError
  rw [errorRange_dividingBy hq]
  by_cases hr : radius = 0
  · subst hr
    rfl
  · rw [← hq quantizedRadius radius hr]
    rfl

theorem inputErrors_dividingBy :
    @Trajectory.inputErrors ℚ (dividingBy quotient) = Trajectory.inputErrors := by
  funext f hull quantized radii quantizedRadii
  rw [@Trajectory.inputErrors_eq_mapM ℚ (dividingBy quotient), Trajectory.inputErrors_eq_mapM,
    inputError_dividingBy hq]

theorem start_dividingBy : @Trajectory.start ℚ (dividingBy quotient) = Trajectory.start := by
  unfold Trajectory.start Zonotope.radii
  rw [finiteHull_dividingBy, quantizeRegion_dividingBy hq, hull_dividingBy,
    inputErrors_dividingBy hq, laneSum_dividingBy]
  rfl

/-! ## Layers -/

/-- The chord is a quotient by the width of an interval that reaches below and above zero. -/
theorem reluRelaxation_dividingBy :
    @reluRelaxation ℚ (dividingBy quotient) = reluRelaxation := by
  funext b
  unfold reluRelaxation
  dsimp only
  split
  · rfl
  · next hu =>
    split
    · rfl
    · next hl =>
      have hlt : b.lower < b.upper := (not_le.mp hl).trans (not_le.mp hu)
      have hw : b.upper - b.lower ≠ 0 := (sub_pos.mpr hlt).ne'
      have htwo : two * (b.upper - b.lower) ≠ 0 := mul_ne_zero (by simp) hw
      rw [← hq _ _ hw, ← hq _ _ htwo]
      rfl

theorem staircaseDeviation_dividingBy :
    @staircaseDeviation ℚ (dividingBy quotient) = staircaseDeviation := by
  unfold staircaseDeviation insertRise
  rw [half_dividingBy (hq 1 2 two_ne_zero)]
  rfl

theorem roundClampRelaxation_dividingBy {c : ℤ} (hc : 1 ≤ c) (b : Bound ℚ) :
    @roundClampRelaxation ℚ (dividingBy quotient) b (c : ℚ) = roundClampRelaxation b c := by
  unfold roundClampRelaxation
  rw [roundClampFormula_dividingBy (hq 1 2 two_ne_zero) fun n d hd =>
    hq n d (roundClampDivisors_pos hc b d hd).ne', staircaseDeviation_dividingBy hq,
    midpoint_dividingBy hq, radius_dividingBy hq]
  rfl

theorem relax_dividingBy {c : ℤ} (hc : 1 ≤ c) (t : Trajectory ℚ) :
    @Trajectory.relax ℚ (dividingBy quotient) (c : ℚ) t = t.relax (c : ℚ) := by
  unfold Trajectory.relax
  simp only [reluRelaxation_dividingBy hq, roundClampRelaxation_dividingBy hq hc]
  rw [finiteHull_dividingBy]
  rfl

theorem reluStep_dividingBy {c : ℤ} (hc : 1 ≤ c) (t : Trajectory ℚ) :
    @Trajectory.reluStep ℚ (dividingBy quotient) (c : ℚ) t = t.reluStep (c : ℚ) := by
  unfold Trajectory.reluStep
  rw [relax_dividingBy hq hc]
  rfl

theorem activationStep_dividingBy {c : ℤ} (hc : 1 ≤ c) (activation : Activation)
    (t : Trajectory ℚ) :
    @Trajectory.activationStep ℚ (dividingBy quotient) (c : ℚ) activation t =
      t.activationStep (c : ℚ) activation := by
  cases activation with
  | relu => exact reluStep_dividingBy hq hc t
  | identity => rfl

theorem step_dividingBy {scale : ℚ} (hscale : scale ≠ 0) {c : ℤ} (hc : 1 ≤ c) (index : Nat)
    (l : LiftedLayer ℚ) (t : Trajectory ℚ) :
    @Trajectory.step ℚ (dividingBy quotient) scale (c : ℚ) index l t =
      t.step scale (c : ℚ) index l := by
  unfold Trajectory.step
  simp only [activationStep_dividingBy hq hc]
  rw [affineStep_dividingBy, hull_dividingBy, ← hq 1 scale hscale]
  rfl

/-- No layer divides by zero, whatever trajectory reaches it. -/
theorem run_dividingBy {scale : ℚ} (hscale : scale ≠ 0) {c : ℤ} (hc : 1 ≤ c) (index : Nat)
    (layers : List (LiftedLayer ℚ)) (t : Trajectory ℚ) :
    @Trajectory.run ℚ (dividingBy quotient) scale (c : ℚ) index layers t =
      t.run scale (c : ℚ) index layers := by
  induction layers generalizing index t with
  | nil => rfl
  | cons l rest ih =>
    unfold Trajectory.run
    simp only [step_dividingBy hq hscale hc, ih]

theorem propagate_dividingBy (cfg : EngineConfig) (n : Network ℚ) {c : Config}
    (hv : c.validate = .ok ()) (region : Zonotope ℚ) :
    @propagate ℚ (dividingBy quotient) cfg (n.dividingBy quotient) c region =
      propagate cfg n c region := by
  obtain ⟨k, hk, hk₁⟩ := Config.exists_ceiling_eq (Config.validate_eq_ok.mp hv)
  have hscale : (c.scale : ℚ) ≠ 0 := c.scale_pos.ne'
  unfold propagate
  rw [inputDim_dividingBy, fixedPoint_dividingBy, start_dividingBy hq, fixedPoint_ok n hv]
  simp only [bind, Except.bind]
  rw [← hq 1 c.scale hscale, hk]
  simp only [run_dividingBy hq hscale hk₁]
  rfl

end

/-! ## Totality -/

/-- Every valid configuration and every region of the right dimension give an analysis, if corners
are enumerated only within the limit and below 64 dimensions.  So no check of a shape, of the ends
of an interval, of a radius or of the limits of a clamp fails on the way.  Nothing is divided by
zero either: the analysis, the error of a coordinate, both relaxations and every layer step are the
same for all quotients that agree with division where the divisor is not zero. -/
theorem propagate_total (cfg : EngineConfig) (n : Network ℚ) (c : Config) (region : Zonotope ℚ)
    (hv : c.validate = .ok ()) (hd : region.dim = n.inputDim)
    (hm : cfg.method = .perDimension ∨
      (cfg.method = .auto ∧ cfg.vertexLimit < region.dim) ∨
      ((cfg.method = .auto ∨ cfg.method = .vertexEnumeration) ∧
        region.dim ≤ cfg.vertexLimit ∧ region.dim < 64)) :
    (∃ a, propagate cfg n c region = .ok a) ∧ (c.scale : ℚ) ≠ 0 ∧
      ∀ quotient : ℚ → ℚ → ℚ, (∀ x d, d ≠ 0 → quotient x d = x / d) →
        @propagate ℚ (dividingBy quotient) cfg (n.dividingBy quotient) c region =
            propagate cfg n c region ∧
          @Trajectory.inputError ℚ (dividingBy quotient) = Trajectory.inputError ∧
          @reluRelaxation ℚ (dividingBy quotient) = reluRelaxation ∧
          (∀ b, @roundClampRelaxation ℚ (dividingBy quotient) b c.ceiling =
            roundClampRelaxation b c.ceiling) ∧
          ∀ index l t, @Trajectory.step ℚ (dividingBy quotient) c.scale c.ceiling index l t =
            t.step c.scale c.ceiling index l := by
  have hadmits : Format.Admits cfg.method region.dim cfg.vertexLimit := by
    rcases hm with hper | ⟨hauto, hlimit⟩ | ⟨_, hlimit, hcap⟩
    · left
      rw [hper]
      rfl
    · left
      rw [hauto]
      exact if_neg (by omega)
    · exact Or.inr ⟨hlimit, hcap⟩
  obtain ⟨k, hk, hk₁⟩ := Config.exists_ceiling_eq (Config.validate_eq_ok.mp hv)
  have hscale : (c.scale : ℚ) ≠ 0 := c.scale_pos.ne'
  refine ⟨propagate_ok cfg n hv hd hadmits, hscale, fun quotient hq => ?_⟩
  refine ⟨propagate_dividingBy hq cfg n hv region, inputError_dividingBy hq,
    reluRelaxation_dividingBy hq, ?_, ?_⟩
  · rw [hk]
    exact roundClampRelaxation_dividingBy hq hk₁
  · rw [hk]
    exact step_dividingBy hq hscale hk₁

/-- With a quotient that gives `1` for every zero divisor. -/
theorem smallNetwork_total :
    Config.standard.validate = .ok () ∧ smallRegion.dim = smallNetwork.inputDim ∧
      (∃ a, propagate .standard smallNetwork .standard smallRegion = .ok a) ∧
      @propagate ℚ (dividingBy fun x d => if d = 0 then 1 else x / d) .standard
          (smallNetwork.dividingBy _) .standard smallRegion =
        propagate .standard smallNetwork .standard smallRegion :=
  have h := propagate_total .standard smallNetwork .standard smallRegion rfl rfl
    (Or.inr (Or.inr ⟨Or.inl rfl, by decide, by decide⟩))
  ⟨rfl, rfl, h.1, (h.2.2 _ fun _ _ hd => if_neg hd).1⟩

end QuantEnclosure
