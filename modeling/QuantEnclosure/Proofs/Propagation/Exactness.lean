import QuantEnclosure.Proofs.Propagation.Counts
import QuantEnclosure.Proofs.Propagation.Soundness

/-!
Where nothing is relaxed nothing is lost, in exact arithmetic.  A region whose generators are all
zero is one point; rounding it leaves no residue, and layers without rectifiers map both zonotopes
linearly.  So both of them stay single points (`run_isPoint`), and since the trajectory tracks the
two passes, these are the real activations and the concrete error.
-/

namespace QuantEnclosure

open Scalar

/-! ## Matrices of zeros -/

namespace Matrix

def IsZero (m : Matrix ℚ) : Prop := ∀ r ∈ m.rows, ∀ x ∈ r, x = 0

theorem of_mem_zipWith {β γ δ : Type} {f : β → γ → δ} {xs : List β} {ys : List γ} {z : δ}
    (h : z ∈ List.zipWith f xs ys) : ∃ x ∈ xs, ∃ y ∈ ys, f x y = z := by
  rw [← List.map_uncurry_zip_eq_zipWith] at h
  obtain ⟨⟨x, y⟩, hxy, rfl⟩ := List.mem_map.mp h
  obtain ⟨hx, hy⟩ := List.of_mem_zip hxy
  exact ⟨x, hx, y, hy, rfl⟩

/-- Rows of zeros, each times its factor, add nothing to a row of zeros. -/
theorem fold_eq_zero (ps : List (ℚ × List ℚ)) (acc : List ℚ) (hacc : ∀ x ∈ acc, x = 0)
    (hps : ∀ p ∈ ps, ∀ x ∈ p.2, x = 0) :
    ∀ x ∈ ps.foldl (fun acc p => List.zipWith (fun a x => a + p.1 * x) acc p.2) acc, x = 0 := by
  induction ps generalizing acc with
  | nil => exact hacc
  | cons p ps ih =>
    rw [List.foldl_cons]
    refine ih _ (fun y hy => ?_) fun q hq => hps q (List.mem_cons_of_mem _ hq)
    obtain ⟨a, ha, x, hx, rfl⟩ := of_mem_zipWith hy
    rw [hacc a ha, hps p (List.mem_cons_self ..) x hx, mul_zero, add_zero]

theorem IsZero.mul (a : Matrix ℚ) {b : Matrix ℚ} (h : b.IsZero) : (a.mul b).IsZero := by
  intro r hr
  obtain ⟨s, _, rfl⟩ := List.mem_map.mp hr
  apply fold_eq_zero
  · intro x hx
    exact List.eq_of_mem_replicate hx
  · intro p hp
    exact h p.2 (List.of_mem_zip hp).2

theorem IsZero.add {a b : Matrix ℚ} (ha : a.IsZero) (hb : b.IsZero) : (a.add b).IsZero := by
  intro r hr x hx
  obtain ⟨s, hs, t, ht, rfl⟩ := of_mem_zipWith hr
  obtain ⟨y, hy, z, hz, rfl⟩ := of_mem_zipWith hx
  rw [ha s hs y hy, hb t ht z hz, add_zero]

theorem IsZero.beside {a b : Matrix ℚ} (ha : a.IsZero) (hb : b.IsZero) : (a.beside b).IsZero := by
  intro r hr x hx
  obtain ⟨s, hs, t, ht, rfl⟩ := of_mem_zipWith hr
  rcases List.mem_append.mp hx with hx | hx
  · exact ha s hs x hx
  · exact hb t ht x hx

theorem IsZero.scaleRows {m : Matrix ℚ} (h : m.IsZero) (f : List ℚ) : (m.scaleRows f).IsZero := by
  intro r hr x hx
  obtain ⟨g, _, s, hs, rfl⟩ := of_mem_zipWith hr
  obtain ⟨y, hy, rfl⟩ := List.mem_map.mp hx
  rw [h s hs y hy, zero_mul]

theorem IsZero.scale {m : Matrix ℚ} (h : m.IsZero) (f : ℚ) : (m.scale f).IsZero := by
  intro r hr x hx
  obtain ⟨s, hs, rfl⟩ := List.mem_map.mp hr
  obtain ⟨y, hy, rfl⟩ := List.mem_map.mp hx
  rw [h s hs y hy, zero_mul]

theorem isZero_zeros (h c : Nat) : (zeros h c).IsZero := by
  intro r hr x hx
  rw [rows_zeros] at hr
  rw [List.eq_of_mem_replicate hr] at hx
  exact List.eq_of_mem_replicate hx

theorem isZero_diagonal {v : List ℚ} (h : ∀ x ∈ v, x = 0) : (diagonal v).IsZero := by
  intro r hr x hx
  obtain ⟨p, hp, rfl⟩ := List.mem_map.mp hr
  obtain ⟨j, _, rfl⟩ := List.mem_map.mp hx
  rw [h p.1 (List.fst_mem_of_mem_zipIdx hp), ite_self]

theorem IsZero.mulVec_eq {m : Matrix ℚ} (h : m.IsZero) (v : List ℚ) :
    m.mulVec v = List.replicate m.height 0 := by
  rw [List.eq_replicate_iff]
  refine ⟨length_mulVec m v, fun y hy => ?_⟩
  obtain ⟨r, hr, rfl⟩ := List.mem_map.mp hy
  rw [List.eq_replicate_of_mem (h r hr), dot_replicate_zero]

end Matrix

/-! ## Zonotopes that are points -/

namespace Zonotope

theorem value_of_isZero {z : Zonotope ℚ} (h : z.generators.IsZero) (noise : List ℚ) :
    z.value noise = z.center := by
  unfold value
  rw [h.mulVec_eq]
  apply List.ext_getElem
  · simp
  · intro i _ _
    simp [Vec.add]

theorem radii_of_isZero {z : Zonotope ℚ} (h : z.generators.IsZero) : ∀ r ∈ z.radii, r = 0 := by
  intro r hr
  rw [radii_eq] at hr
  obtain ⟨row, hrow, rfl⟩ := List.mem_map.mp hr
  rw [List.eq_replicate_of_mem (h row hrow)]
  simp

theorem box_of_isZero {z : Zonotope ℚ} (h : z.generators.IsZero) :
    z.box = z.center.map Bound.point := by
  apply List.ext_getElem
  · simp
  · intro i hb _
    have hi : i < z.radii.length := by simpa using hb
    simp [box, Bound.point, radii_of_isZero h _ (List.getElem_mem hi)]

end Zonotope

namespace Trajectory

structure IsPoint (t : Trajectory ℚ) : Prop where
  exact_isZero : t.exact.generators.IsZero
  error_isZero : t.error.generators.IsZero

variable {t t' : Trajectory ℚ}

/-- A coordinate without radius is rounded without a residue. -/
theorem inputErrors_of_radii {f : Format} {hs qs : List (Bound ℚ)} {rs ss : List ℚ}
    {errors : List (ℚ × ℚ)} (h : inputErrors f hs qs rs ss = .ok errors) (hr : ∀ r ∈ rs, r = 0) :
    ∀ e ∈ errors, e = (0, 0) := by
  rw [inputErrors_eq_mapM] at h
  intro e he
  obtain ⟨i, hi, rfl⟩ := List.getElem_of_mem he
  have hlen := length_of_mapM_ok h
  have herror := getElem_of_mapM_ok h i (by omega) hi
  have hi' : i < rs.length := by
    simp only [List.length_zip] at hlen
    omega
  simp only [List.getElem_zip, hr _ (List.getElem_mem hi')] at herror
  exact (Except.ok.inj herror).symm

theorem start_isPoint {cfg : EngineConfig} {f : Format} {region : Zonotope ℚ}
    {method : RegionMethod} (h : start cfg f region = .ok (t, method))
    (hz : region.generators.IsZero) : t.IsPoint := by
  obtain ⟨_, _, _, errors, _, _, _, he, hs⟩ := start_eq_ok h
  have herrors := inputErrors_of_radii he (Zonotope.radii_of_isZero hz)
  constructor
  · rw [hs.exact_eq]
    exact hz.beside (Matrix.isZero_zeros _ _)
  · rw [hs.error_generators]
    refine (hz.scaleRows _).beside (Matrix.isZero_diagonal fun x hx => ?_)
    obtain ⟨e, he, rfl⟩ := List.mem_map.mp hx
    rw [herrors e he]

theorem AffineImage.isPoint {l : LiftedLayer ℚ} (h : AffineImage l t t') (ht : t.IsPoint) :
    t'.IsPoint := by
  constructor
  · rw [h.exact_generators]
    exact ht.exact_isZero.mul _
  · rw [h.error_generators]
    exact (ht.exact_isZero.mul _).add (ht.error_isZero.mul _)

theorem step_isPoint {scale ceiling : ℚ} {index : Nat} {l : LiftedLayer ℚ}
    {record : LayerRecord ℚ} (hl : l.activation = .identity)
    (h : t.step scale ceiling index l = .ok (t', record)) (ht : t.IsPoint) : t'.IsPoint := by
  obtain ⟨t₁, _, _, ha, hr, _, _⟩ := step_eq_ok h
  rw [hl] at hr
  cases hr
  exact (affineStep_eq_ok ha).isPoint ht

/-- Layers without rectifiers keep single points single. -/
theorem run_isPoint {scale ceiling : ℚ} {index : Nat} {layers : List (LiftedLayer ℚ)}
    {records : List (LayerRecord ℚ)} (hl : ∀ l ∈ layers, l.activation = .identity)
    (h : t.run scale ceiling index layers = .ok (t', records)) (ht : t.IsPoint) : t'.IsPoint := by
  induction layers generalizing t index records with
  | nil =>
    cases h
    exact ht
  | cons l layers ih =>
    obtain ⟨t₁, record, tail, hs, hr, rfl⟩ := run_cons_eq_ok.mp h
    have ht₁ := step_isPoint (hl l (List.mem_cons_self ..)) hs ht
    exact ih (fun k hk => hl k (List.mem_cons_of_mem _ hk)) hr ht₁

/-! ## The two passes -/

variable {noise real quantized : List ℚ}

/-- A trajectory of single points has the concrete error as its center. -/
theorem Tracks.error_center (ht : t.Tracks noise real quantized) (hp : t.IsPoint) :
    t.error.center = Vec.sub quantized real := by
  rw [← ht.error_eq, Zonotope.value_of_isZero hp.error_isZero]

/-- Taken back from the integer domain, the error bounds are the points of the concrete error. -/
theorem Tracks.errorBounds_eq (ht : t.Tracks noise real quantized) (hp : t.IsPoint) (scale : ℚ) :
    (t.error.scale (1 / scale)).hull =
      .ok ((Vec.sub quantized real).map fun e => .point (e / scale)) := by
  have hzero : (t.error.scale (1 / scale)).generators.IsZero := hp.error_isZero.scale _
  have hcenter : (t.error.scale (1 / scale)).center =
      Vec.scale (1 / scale) (Vec.sub quantized real) := by
    rw [← ht.error_center hp]
    rfl
  rw [Zonotope.hull_eq, Zonotope.box_of_isZero hzero, hcenter, Vec.scale, List.map_map]
  simp [Function.comp_def, div_eq_mul_inv]

/-- Every record of a run through layers without rectifiers holds the difference of the two passes
after its layer. -/
theorem run_records_exact {scale : ℚ} {c : ℤ} (hc : 1 ≤ c) {index : Nat}
    {layers : List (LiftedLayer ℚ)} (hfits : ∀ l ∈ layers, l.Fits)
    (hl : ∀ l ∈ layers, l.activation = .identity) {records : List (LayerRecord ℚ)}
    (h : t.run scale (c : ℚ) index layers = .ok (t', records)) (hp : t.IsPoint)
    (ht : t.Tracks noise real quantized) {k : Nat} (hk : k < layers.length) :
    ∃ record result, records[k]? = some record ∧
      FixedPointNetwork.runQuantized (c : ℚ) (layers.take (k + 1)) quantized = .ok result ∧
      result.length = (FixedPointNetwork.runReal (layers.take (k + 1)) real).length ∧
      record.errorBounds = (Vec.sub result
        (FixedPointNetwork.runReal (layers.take (k + 1)) real)).map fun e => .point (e / scale) := by
  rw [← List.take_append_drop (k + 1) layers] at h
  obtain ⟨t₁, head, tail, hfront, _, rfl⟩ := run_append_eq_ok.mp h
  have hlen : head.length = k + 1 := by
    rw [length_of_run_ok hfront, List.length_take]
    omega
  have hne : layers.take (k + 1) ≠ [] := by
    rw [← List.length_pos_iff, ← length_of_run_ok hfront]
    omega
  have hp₁ := run_isPoint (fun l hm => hl l (List.mem_of_mem_take hm)) hfront hp
  obtain ⟨rest, result, hrun, ht₁⟩ :=
    run_tracks hc (fun l hm => hfits l (List.mem_of_mem_take hm)) hfront ht
  obtain ⟨record, hlast, hbounds⟩ := getLast?_of_run_ok hne hfront
  refine ⟨record, result, ?_, hrun, ht₁.length_eq, ?_⟩
  · rw [List.getLast?_eq_getElem?, hlen, Nat.add_sub_cancel] at hlast
    rw [List.getElem?_append_left (by omega), hlast]
  · rw [ht₁.errorBounds_eq hp₁] at hbounds
    exact (Except.ok.inj hbounds).symm

end Trajectory

/-! ## Exactness -/

/-- What layer `k` gives in the lifted real pass from `x`. -/
def FixedPointNetwork.realActivationAt (n : FixedPointNetwork ℚ) (k : Nat) (x : List ℚ) : List ℚ :=
  runReal (n.layers.take (k + 1)) x

/-- Over a single point, a network without rectifiers is analysed without loss: the error zonotope
is the quantized minus the real value at that point, with generators that are all zero, and the
bounds of every record are the numbers by which the two passes differ after its layer, in real
units. -/
theorem propagate_exact (cfg : EngineConfig) (n : Network ℚ) (c : Config) (region : Zonotope ℚ)
    (a : Analysis ℚ) (h : propagate cfg n c region = .ok a)
    (hl : ∀ l ∈ n.layers, l.activation = .identity)
    (hz : ∀ row ∈ region.generators.rows, ∀ g ∈ row, g = 0) :
    (∃ quantized real, n.forwardQuantized c region.center = .ok quantized ∧
      n.forward region.center = .ok real ∧ quantized.length = real.length ∧
      a.error.center = Vec.sub quantized real ∧
      ∀ row ∈ a.error.generators.rows, ∀ g ∈ row, g = 0) ∧
    a.trace.length = n.layers.length ∧
    ∃ fixed, n.fixedPoint c = .ok fixed ∧ ∀ k < n.layers.length, ∃ record quantized,
      a.trace[k]? = some record ∧ fixed.activationAt k region.center = .ok quantized ∧
      quantized.length = (fixed.realActivationAt k region.center).length ∧
      record.errorBounds = (Vec.sub quantized (fixed.realActivationAt k region.center)).map
        fun e => .point (e / fixed.scale) := by
  have hnoise : Zonotope.IsNoise region.order (List.replicate region.order 0) :=
    ⟨by simp, by simp⟩
  have hvalue : region.value (List.replicate region.order 0) = region.center :=
    Zonotope.value_of_isZero hz _
  obtain ⟨quantized, real, rest, hq, hr, hlen, _, herror⟩ := propagate_tracks h hnoise
  rw [hvalue] at hq hr
  obtain ⟨_, fixed, start, method, t, trace, hf, hs, hrun, rfl⟩ := propagate_eq_ok.mp h
  obtain ⟨_, _, hv, _, _, _⟩ := fixedPoint_eq_ok hf
  have hfixed := fixedPoint_ok n hv
  obtain rfl := Except.ok.inj (hfixed.symm.trans hf)
  have hc := Config.validate_eq_ok.mp hv
  obtain ⟨ceiling, hceiling, hone⟩ := Config.exists_ceiling_eq hc
  have hidentity : ∀ l ∈ liftLayers c.scale c.weights.rounded c.biases.rounded n.layers,
      l.activation = .identity := by
    intro l hm
    obtain ⟨_, k, hk, rfl⟩ := mem_liftLayers _ _ _ hm
    exact hl k hk
  have hstart := Trajectory.start_isPoint hs hz
  have hpoint := Trajectory.run_isPoint hidentity hrun hstart
  have hzero : (t.error.scale (1 / c.scale)).generators.IsZero := hpoint.error_isZero.scale _
  refine ⟨⟨quantized, real, hq, hr, hlen, ?_, hzero⟩, ?_, _, hfixed, fun k hk => ?_⟩
  · rw [← herror, Zonotope.value_of_isZero hzero]
  · rw [Trajectory.length_of_run_ok hrun, length_liftLayers]
  · obtain ⟨first, htracks⟩ := Trajectory.start_tracks hc.input hs hnoise
    rw [hvalue] at htracks
    dsimp only at hrun
    rw [hceiling] at hrun
    obtain ⟨record, result, hrecord, hresult, hlen', hbounds⟩ := Trajectory.run_records_exact hone
      (fits_of_mem_liftLayers _ _ _) hidentity hrun hstart htracks (k := k) (by simpa using hk)
    rw [← hceiling] at hresult
    exact ⟨record, result, hrecord, bind_eq_ok.mpr ⟨_, Format.quantizeVec_eq hc.input _, hresult⟩,
      hlen', hbounds⟩

/-- The small network without its rectifiers. -/
def affineNetwork : Network ℚ where
  layers := smallNetwork.layers.map fun l => { l with activation := .identity }
  nonempty := List.cons_ne_nil _ _
  linked := ⟨rfl, trivial⟩

/-- The region is one point, both coordinates of which have to be rounded. -/
theorem affineNetwork_exact :
    ∃ a record, propagate .standard affineNetwork .standard (.point [1 / 3, 1 / 10]) = .ok a ∧
      affineNetwork.forwardQuantized .standard [1 / 3, 1 / 10] = .ok [-17 / 128] ∧
      affineNetwork.forward [1 / 3, 1 / 10] = .ok [-1 / 8] ∧ a.error.center = [-1 / 128] ∧
      a.trace[0]? = some record ∧
      record.errorBounds = [.point (-17 / 3840), .point (1 / 480)] := by
  obtain ⟨a, ha⟩ : ∃ a,
      propagate .standard affineNetwork .standard (.point [1 / 3, 1 / 10]) = .ok a :=
    propagate_ok .standard affineNetwork rfl rfl (Or.inr ⟨by decide, by decide⟩)
  obtain ⟨⟨quantized, real, hq, hr, _, hcenter, _⟩, _, fixed, hf, hrecords⟩ :=
    propagate_exact .standard affineNetwork .standard _ a ha (by decide) (by decide)
  have hq' : affineNetwork.forwardQuantized .standard [1 / 3, 1 / 10] = .ok [-17 / 128] := by
    decide +kernel
  have hr' : affineNetwork.forward [1 / 3, 1 / 10] = .ok [-1 / 8] := by decide +kernel
  cases hq.symm.trans hq'
  cases hr.symm.trans hr'
  obtain rfl := Except.ok.inj ((fixedPoint_ok affineNetwork rfl).symm.trans hf)
  obtain ⟨record, activation, hrecord, hactivation, _, hbounds⟩ := hrecords 0 (by decide)
  refine ⟨a, record, ha, hq', hr', ?_, hrecord, ?_⟩
  · rw [hcenter]
    decide +kernel
  · have hfirst : FixedPointNetwork.activationAt
        { layers := liftLayers Config.standard.scale Config.standard.weights.rounded
            Config.standard.biases.rounded affineNetwork.layers
          input := Config.standard.input
          scale := Config.standard.scale
          ceiling := Config.standard.ceiling } 0 [1 / 3, 1 / 10] = .ok [65, 184] := by
      decide +kernel
    cases hactivation.symm.trans hfirst
    rw [hbounds]
    decide +kernel

end QuantEnclosure
