import QuantEnclosure.Proofs.Network.Passes
import QuantEnclosure.Proofs.Propagation.Input

/-!
Soundness of the propagation in exact arithmetic.  At every point of the region the difference
between the quantized and the real value of the network is a point of the error zonotope, and the
noise vector of that point begins with the noise of the input.
-/

namespace QuantEnclosure

open Zonotope (value_within_box)

/-- Going back to real units takes a difference from a lifted vector to a difference from the
vector. -/
theorem scale_sub_scale {f : ℚ} (hf : f ≠ 0) (xs ys : List ℚ) :
    Vec.scale (1 / f) (Vec.sub xs (Vec.scale f ys)) = Vec.sub (xs.map (· / f)) ys := by
  apply List.ext_getElem
  · simp
  · intro i _ _
    simp only [Vec.scale, Vec.sub, List.getElem_map, List.getElem_zipWith]
    field_simp

/-! ## The input region -/

/-- Before the first layer the trajectory is sound, in every valid format and for every method that
can be applied to the region.  The exact part is the region itself with columns of zeros behind its
own, so that its points are those of the region on the same symbols.  The error follows these
symbols too, and one more symbol for each coordinate can be chosen such that it is the rounding
error of the point. -/
theorem start_encloses_rounding (cfg : EngineConfig) (f : Format) (hf : f.validate = .ok ())
    (region : Zonotope ℚ) (hm : Format.Admits cfg.method region.dim cfg.vertexLimit) :
    ∃ t method, Trajectory.start cfg f region = .ok (t, method) ∧
      t.exact.center = region.center ∧
      t.exact.generators = region.generators.beside (Matrix.zeros region.dim region.dim) ∧
      (∀ noise rest, Zonotope.IsNoise region.order noise → Zonotope.IsNoise region.dim rest →
        t.exact.pointAt (noise ++ rest) = region.pointAt noise) ∧
      ∀ noise, Zonotope.IsNoise region.order noise →
        ∃ x quantized rest, region.pointAt noise = .ok x ∧ f.quantizeVec x = .ok quantized ∧
          Zonotope.IsNoise region.dim rest ∧
          t.error.pointAt (noise ++ rest) = .ok (Vec.sub quantized x) := by
  have hv := Format.validateAs_eq_ok.mp hf
  obtain ⟨t, method, hs⟩ := Trajectory.start_ok cfg hv hm
  obtain ⟨_, _, _, _, _, _, _, _, hstarts⟩ := Trajectory.start_eq_ok hs
  have hexact := hstarts.exact_eq
  refine ⟨t, method, hs, by rw [hexact]; rfl, by rw [hexact]; rfl, fun noise rest hn hr => ?_,
    fun noise hn => ?_⟩
  · rw [hexact, Zonotope.pointAt_eq _ (by simp [hn.length_eq, hr.length_eq]),
      Zonotope.value_pad _ _ hn.length_eq, region.pointAt_eq hn.length_eq]
  · obtain ⟨rest, ht⟩ := Trajectory.start_tracks hv hs hn
    have hrest := ht.isNoise
    rw [hexact, Zonotope.order_pad] at hrest
    refine ⟨_, _, rest, region.pointAt_eq hn.length_eq, Format.quantizeVec_eq hv _,
      hrest.of_append hn.length_eq, ?_⟩
    rw [t.error.pointAt_eq (by rw [ht.order_eq, ht.isNoise.length_eq]), ht.error_eq]

/-- At one point of `skewRegion` the first coordinate is exact, the second off by less than half a
gap, and the last one moved to the end of the format. -/
theorem skewRegion_rounding_enclosed :
    Config.standard.input.validate = .ok () ∧
      ∃ t method, Trajectory.start .standard Config.standard.input Format.skewRegion =
          .ok (t, method) ∧
        Zonotope.IsNoise Format.skewRegion.order [1 / 2, -1] ∧
        Format.skewRegion.pointAt [1 / 2, -1] = .ok [0, 1 / 3, 5 / 4] ∧
        ∃ rest, Zonotope.IsNoise 3 rest ∧
          t.error.pointAt ([1 / 2, -1] ++ rest) = .ok [0, -1 / 768, -193 / 256] := by
  have hm : Format.Admits .auto Format.skewRegion.dim 16 := .inr ⟨by decide, by decide⟩
  have hn : Zonotope.IsNoise Format.skewRegion.order [1 / 2, -1] := ⟨rfl, by decide +kernel⟩
  have hx : Format.skewRegion.pointAt [1 / 2, -1] = .ok [0, 1 / 3, 5 / 4] := by decide +kernel
  have hq : Config.standard.input.quantizeVec [0, 1 / 3, 5 / 4] =
      .ok [(0 : ℚ), 85 / 256, 127 / 256] := by
    decide +kernel
  obtain ⟨t, method, hs, _, _, _, herror⟩ :=
    start_encloses_rounding .standard Config.standard.input rfl Format.skewRegion hm
  obtain ⟨x, quantized, rest, hx', hq', hrest, herror⟩ := herror _ hn
  cases hx'.symm.trans hx
  cases hq'.symm.trans hq
  refine ⟨rfl, t, method, hs, hn, hx, rest, hrest, ?_⟩
  rw [herror]
  decide +kernel

/-! ## Soundness -/

/-- The concrete error at a point of the region is a point of the error zonotope. -/
theorem propagate_tracks {cfg : EngineConfig} {n : Network ℚ} {c : Config} {region : Zonotope ℚ}
    {a : Analysis ℚ} (h : propagate cfg n c region = .ok a) {noise : List ℚ}
    (hn : Zonotope.IsNoise region.order noise) :
    ∃ quantized real rest, n.forwardQuantized c (region.value noise) = .ok quantized ∧
      n.forward (region.value noise) = .ok real ∧ quantized.length = real.length ∧
      Zonotope.IsNoise a.error.order (noise ++ rest) ∧
      a.error.value (noise ++ rest) = Vec.sub quantized real := by
  obtain ⟨hd, fixed, start, method, t, trace, hf, hs, hr, rfl⟩ := propagate_eq_ok.mp h
  obtain ⟨_, _, hv, _, _, _⟩ := fixedPoint_eq_ok hf
  rw [fixedPoint_ok n hv] at hf
  cases hf
  have hc := Config.validate_eq_ok.mp hv
  obtain ⟨k, hk, hk₁⟩ := Config.exists_ceiling_eq hc
  obtain ⟨first, hstart⟩ := Trajectory.start_tracks hc.input hs hn
  dsimp only at hr
  rw [hk] at hr
  obtain ⟨rest, result, hq, ht⟩ :=
    Trajectory.run_tracks hk₁ (fits_of_mem_liftLayers _ _ _) hr hstart
  rw [← hk] at hq
  have hreal := runReal_liftLayers c.weights.rounded c.biases.rounded c.scale_pos.le n.nonempty
    (region.value noise)
  have hdim : n.inputDim = (region.value noise).length := by simp [hd]
  have hlen := ht.length_eq
  rw [hreal, Vec.length_scale] at hlen
  refine ⟨_, _, first ++ rest, forwardQuantized_eq n hv hdim hq, forward_eq n hdim, ?_, ?_, ?_⟩
  · simpa using hlen
  · rw [Zonotope.order_scale, ht.order_eq, ← List.append_assoc]
    exact ht.isNoise
  · rw [Zonotope.value_scale, ← List.append_assoc, ht.error_eq, hreal]
    exact scale_sub_scale c.scale_pos.ne' _ _

/-- At every point of the region the difference of the quantized and the real value is a point of
the error zonotope, whose noise begins with that of the input, and lies within the error bounds. -/
theorem propagate_encloses_error (cfg : EngineConfig) (n : Network ℚ) (c : Config)
    (region : Zonotope ℚ) (a : Analysis ℚ) (h : propagate cfg n c region = .ok a)
    (noise : List ℚ) (hn : Zonotope.IsNoise region.order noise) :
    ∃ x quantized real, region.pointAt noise = .ok x ∧
      n.forwardQuantized c x = .ok quantized ∧ n.forward x = .ok real ∧
      quantized.length = real.length ∧
      (∃ rest, Zonotope.IsNoise a.error.order (noise ++ rest) ∧
        a.error.pointAt (noise ++ rest) = .ok (Vec.sub quantized real)) ∧
      ∃ bounds, a.errorBounds = .ok bounds ∧
        List.Forall₂ (fun b e => b.contains e = true) bounds (Vec.sub quantized real) := by
  obtain ⟨quantized, real, rest, hq, hf, hlen, hrest, herror⟩ := propagate_tracks h hn
  refine ⟨region.value noise, quantized, real, region.pointAt_eq hn.length_eq, hq, hf, hlen,
    ⟨rest, hrest, ?_⟩, a.error.box, a.error.hull_eq, ?_⟩
  · rw [a.error.pointAt_eq hrest.length_eq, herror]
  · rw [← herror]
    exact value_within_box a.error hrest

/-- The small network halfway between the center of its region and an end. -/
theorem smallNetwork_error_enclosed :
    ∃ a, propagate .standard smallNetwork .standard smallRegion = .ok a ∧
      Zonotope.IsNoise smallRegion.order [1 / 2] ∧
      ∃ x quantized real, smallRegion.pointAt [1 / 2] = .ok x ∧
        smallNetwork.forwardQuantized .standard x = .ok quantized ∧
        smallNetwork.forward x = .ok real ∧ quantized.length = real.length ∧
        (∃ rest, Zonotope.IsNoise a.error.order ([1 / 2] ++ rest) ∧
          a.error.pointAt ([1 / 2] ++ rest) = .ok (Vec.sub quantized real)) ∧
        ∃ bounds, a.errorBounds = .ok bounds ∧
          List.Forall₂ (fun b e => b.contains e = true) bounds (Vec.sub quantized real) := by
  obtain ⟨a, ha⟩ := smallNetwork_propagates
  have hn : Zonotope.IsNoise smallRegion.order [1 / 2] := by
    refine ⟨rfl, ?_⟩
    intro e he
    rcases List.mem_singleton.mp he with rfl
    norm_num
  exact ⟨a, ha, hn, propagate_encloses_error .standard smallNetwork .standard smallRegion a ha
    [1 / 2] hn⟩

end QuantEnclosure
