import QuantEnclosure.Proofs.Propagation.Refusals

/-!
The two ways of quantizing the input region are interchangeable.  What follows the quantization
depends on the quantized region only, in any arithmetic (`start_of_quantizeRegion`,
`propagate_of_start`); in exact arithmetic the box around all quantized corners is the box between
the quantized ends.  So both give the same analysis, failures included, and only the reported
method differs.
-/

namespace QuantEnclosure

section

variable {α : Type} [Scalar α] {cfg cfg' : EngineConfig} {region : Zonotope α}

/-- Where both settings quantize the region to the same box, they start in the same way. -/
theorem Trajectory.start_of_quantizeRegion {f : Format} {quantized : Zonotope α}
    {used used' : RegionMethod}
    (h : f.quantizeRegion region cfg.method cfg.vertexLimit = .ok (quantized, used))
    (h' : f.quantizeRegion region cfg'.method cfg'.vertexLimit = .ok (quantized, used')) :
    start cfg' f region = (start cfg f region).map fun p => (p.1, used') := by
  unfold start
  rw [h, h']
  show _ = (fun p : Trajectory α × RegionMethod => (p.1, used')) <$> _
  simp only [map_bind]
  rfl

/-- Where both settings start in the same way, they give the same analysis. -/
theorem propagate_of_start {n : Network α} {c : Config} {used : RegionMethod}
    (h : c.validate = .ok () → Trajectory.start cfg' c.input region =
      (Trajectory.start cfg c.input region).map fun p => (p.1, used)) :
    propagate cfg' n c region =
      (propagate cfg n c region).map fun a => { a with method := used } := by
  by_cases hd : n.inputDim = region.dim
  · cases hf : n.fixedPoint c with
    | error g =>
      unfold propagate
      rw [ensureDim_of_eq _ hd, hf]
      rfl
    | ok fixed =>
      obtain ⟨_, _, hv, _, _, hfixed⟩ := fixedPoint_eq_ok hf
      have hinput : fixed.input = c.input := by rw [hfixed]
      have hstart := h hv
      rw [← hinput] at hstart
      cases hs : Trajectory.start cfg fixed.input region with
      | error g =>
        rw [hs] at hstart
        unfold propagate
        rw [ensureDim_of_eq _ hd, hf]
        simp only [bind, Except.bind]
        rw [hs, hstart]
        rfl
      | ok p =>
        obtain ⟨start, method⟩ := p
        rw [hs] at hstart
        rw [propagate_eq_map_run hd hf hs, propagate_eq_map_run hd hf hstart]
        cases start.run fixed.scale fixed.ceiling 0 fixed.layers with
        | error g => rfl
        | ok p => rfl
  · rw [propagate_of_dim_ne hd, propagate_of_dim_ne hd]
    rfl

end

/-- Enumeration and closed form quantize a region to the same box. -/
theorem quantizeRegion_methods {f : Format} (hf : f.Valid) (z : Zonotope ℚ) {limit : Nat}
    (hl : z.dim ≤ limit) (hcap : z.dim < Box.enumerationCap) (limit' : Nat) :
    f.quantizeRegion z .vertexEnumeration limit =
        .ok (.ofBox (f.roundedBox z.box), .vertexEnumeration) ∧
      f.quantizeRegion z .perDimension limit' =
        .ok (.ofBox (f.roundedBox z.box), .perDimension) :=
  ⟨bind_eq_ok.mpr ⟨_, Format.enumerateRegion_eq hf z hl hcap, rfl⟩,
    bind_eq_ok.mpr ⟨_, Format.closedRegion_eq hf z, rfl⟩⟩

/-- On a region of a dimension within the limit and below 64, both methods quantize to the same
zonotope in every valid format.  So for every network and every configuration they give the same
error zonotope and the same trace, or fail in the same way; only the reported method differs. -/
theorem region_methods_agree (z : Zonotope ℚ) (limit : Nat) (hl : z.dim ≤ limit)
    (hcap : z.dim < 64) :
    (∀ f : Format, f.validate = .ok () →
      ∃ q, f.enumerateRegion z limit = .ok q ∧ f.closedRegion z = .ok q) ∧
    ∀ (n : Network ℚ) (c : Config) (limit' : Nat),
      propagate ⟨.perDimension, limit'⟩ n c z =
        (propagate ⟨.vertexEnumeration, limit⟩ n c z).map
          (fun a => { a with method := .perDimension }) ∧
      (∀ a, propagate ⟨.vertexEnumeration, limit⟩ n c z = .ok a →
        a.method = .vertexEnumeration) ∧
      (c.validate = .ok () → z.dim = n.inputDim →
        ∃ a, propagate ⟨.vertexEnumeration, limit⟩ n c z = .ok a) := by
  constructor
  · intro f hv
    have hf := Format.validateAs_eq_ok.mp hv
    exact ⟨_, Format.enumerateRegion_eq hf z hl hcap, Format.closedRegion_eq hf z⟩
  · intro n c limit'
    refine ⟨propagate_of_start fun hv => ?_, fun a ha => ?_, fun hv hd => ?_⟩
    · obtain ⟨hq, hq'⟩ := quantizeRegion_methods (Config.validate_eq_ok.mp hv).input z hl hcap
        limit'
      exact Trajectory.start_of_quantizeRegion hq hq'
    · obtain ⟨_, fixed, start, method, _, _, hf, hs, _, rfl⟩ := propagate_eq_ok.mp ha
      obtain ⟨_, _, hv, _, _, rfl⟩ := fixedPoint_eq_ok hf
      obtain ⟨_, _, _, _, _, hq, _⟩ := Trajectory.start_eq_ok hs
      obtain ⟨hq', _⟩ := quantizeRegion_methods (Config.validate_eq_ok.mp hv).input z hl hcap limit'
      rw [hq'] at hq
      cases hq
      rfl
    · exact propagate_ok _ n hv hd (Or.inr ⟨hl, hcap⟩)

/-- The four corners of `smallRegion` and the closed form lead to the same analysis. -/
theorem smallNetwork_methods_agree :
    smallRegion.dim ≤ 2 ∧
      ∃ a, propagate ⟨.vertexEnumeration, 2⟩ smallNetwork .standard smallRegion = .ok a ∧
        a.method = .vertexEnumeration ∧
        propagate ⟨.perDimension, 0⟩ smallNetwork .standard smallRegion =
          .ok { a with method := .perDimension } := by
  obtain ⟨_, h⟩ := region_methods_agree smallRegion 2 (by decide) (by decide)
  obtain ⟨heq, hmethod, hok⟩ := h smallNetwork .standard 0
  obtain ⟨a, ha⟩ := hok rfl rfl
  refine ⟨by decide, a, ha, hmethod a ha, ?_⟩
  rw [heq, ha]
  rfl

end QuantEnclosure
