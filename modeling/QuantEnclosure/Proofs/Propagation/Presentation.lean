import QuantEnclosure.Proofs.Propagation.Progress
import QuantEnclosure.Proofs.Propagation.Tracking
import QuantEnclosure.Proofs.Zonotope.Presentation

/-!
The analysis depends on the points of the region only, in exact arithmetic.  The points of a
trajectory are the pairs that both zonotopes reach on the same noise.  What a layer makes of them
is a function of these pairs (`AffineImage.mem_points`, `Rectified.mem_points`), and so are the
relaxations and the record of the layer.  Hence two runs from trajectories with the same points
keep the same points and write records that differ at most in the numbers of generators
(`step_samePoints`, `run_samePoints`).  Regions that name their noise symbols differently have the
same points, so they get the same error bounds (`propagate_relabeled`).
-/

namespace QuantEnclosure

open Zonotope

/-- Two records that differ at most in the numbers of generators. -/
structure LayerRecord.SameFindings (r r' : LayerRecord ℚ) : Prop where
  index : r'.index = r.index
  activation : r'.activation = r.activation
  errorBounds : r'.errorBounds = r.errorBounds
  unstable : r'.unstable = r.unstable
  cases : r'.cases = r.cases

namespace Trajectory

/-- The pairs of points that both zonotopes reach on the same noise. -/
def points (t : Trajectory ℚ) : Set (List ℚ × List ℚ) :=
  {p | ∃ noise, IsNoise t.exact.order noise ∧ (t.exact.value noise, t.error.value noise) = p}

variable {t t' t₁ t₁' : Trajectory ℚ}

theorem mem_exact_iff {x : List ℚ} : x ∈ t.exact ↔ ∃ e, (x, e) ∈ t.points := by
  rw [mem_iff_exists_value]
  constructor
  · rintro ⟨noise, hn, rfl⟩
    exact ⟨_, noise, hn, rfl⟩
  · rintro ⟨e, noise, hn, hp⟩
    exact ⟨noise, hn, congrArg Prod.fst hp⟩

theorem mem_error_iff (h : t.exact.order = t.error.order) {e : List ℚ} :
    e ∈ t.error ↔ ∃ x, (x, e) ∈ t.points := by
  rw [mem_iff_exists_value, ← h]
  constructor
  · rintro ⟨noise, hn, rfl⟩
    exact ⟨_, noise, hn, rfl⟩
  · rintro ⟨x, noise, hn, hp⟩
    exact ⟨noise, hn, congrArg Prod.snd hp⟩

/-! ## The points after a layer -/

/-- What the affine part of a layer makes of a pair of points. -/
def affinePoint (l : LiftedLayer ℚ) (p : List ℚ × List ℚ) : List ℚ × List ℚ :=
  (Vec.add (l.weight.mulVec p.1) l.bias,
    Vec.add (Vec.add ((l.quantWeight.sub l.weight).mulVec p.1) (l.quantWeight.mulVec p.2))
      (Vec.sub l.quantBias l.bias))

theorem AffineImage.mem_points {l : LiftedLayer ℚ} (h : AffineImage l t t')
    {p : List ℚ × List ℚ} : p ∈ t'.points ↔ ∃ q ∈ t.points, affinePoint l q = p := by
  have horder : t'.exact.order = t.exact.order := by
    rw [← cols_generators, h.exact_generators, Matrix.cols_mul, cols_generators]
  constructor
  · rintro ⟨noise, hn, rfl⟩
    rw [horder] at hn
    exact ⟨_, ⟨noise, hn, rfl⟩, Prod.ext h.exact_value.symm h.error_value.symm⟩
  · rintro ⟨_, ⟨noise, hn, rfl⟩, rfl⟩
    rw [← horder] at hn
    exact ⟨noise, hn, Prod.ext h.exact_value h.error_value⟩

/-- What the relaxations `r` make of a pair of points, with new noise for both residues. -/
def rectifiedPoint (r : Relaxed ℚ) (p : List ℚ × List ℚ) (first second : List ℚ) :
    List ℚ × List ℚ :=
  let real := Vec.add (Vec.add (Vec.mul r.slope p.1) r.offset) (Vec.mul r.residue first)
  (real, Vec.sub (Vec.add (Vec.add (Vec.mul r.quantSlope (Vec.add p.1 p.2)) r.quantOffset)
    (Vec.mul r.quantResidue second)) real)

theorem Rectified.mem_points {r : Relaxed ℚ} (h : Rectified r t t')
    (hr : r.exact.length = t.exact.dim) (hq : r.quantized.length = t.exact.dim)
    {p : List ℚ × List ℚ} :
    p ∈ t'.points ↔ ∃ q ∈ t.points, ∃ first second, IsNoise t.exact.dim first ∧
      IsNoise t.exact.dim second ∧ rectifiedPoint r q first second = p := by
  have horder : t'.exact.order = t.exact.order + t.exact.dim + t.exact.dim := by
    rw [← cols_generators, h.exact_generators]
    simp [hr]
  constructor
  · rintro ⟨noise, hn, rfl⟩
    rw [horder] at hn
    obtain ⟨front, second, rfl, hfront, h₂⟩ := hn.split
    obtain ⟨noise, first, rfl, hn, h₁⟩ := hfront.split
    refine ⟨_, ⟨noise, hn, rfl⟩, first, second, h₁, h₂, Prod.ext ?_ ?_⟩
    · exact (h.exact_value second hn.length_eq hr h₁.length_eq).symm
    · exact (h.error_value hn.length_eq hr hq h₁.length_eq h₂.length_eq).symm
  · rintro ⟨_, ⟨noise, hn, rfl⟩, first, second, h₁, h₂, rfl⟩
    refine ⟨noise ++ first ++ second, ?_, Prod.ext ?_ ?_⟩
    · rw [horder]
      exact (hn.append h₁).append h₂
    · exact h.exact_value second hn.length_eq hr h₁.length_eq
    · exact h.error_value hn.length_eq hr hq h₁.length_eq h₂.length_eq

/-! ## Two runs on the same points -/

/-- Two trajectories of one dimension with the same points; they may differ in their symbols. -/
structure SamePoints (dim : Nat) (t t' : Trajectory ℚ) : Prop where
  shaped : ∃ order, t.Shaped dim order
  shaped' : ∃ order, t'.Shaped dim order
  points_eq : t.points = t'.points

variable {dim : Nat}

theorem SamePoints.mem_exact_iff (h : SamePoints dim t t') (x : List ℚ) :
    x ∈ t.exact ↔ x ∈ t'.exact := by
  rw [Trajectory.mem_exact_iff, Trajectory.mem_exact_iff, h.points_eq]

theorem SamePoints.mem_error_iff (h : SamePoints dim t t') (e : List ℚ) :
    e ∈ t.error ↔ e ∈ t'.error := by
  obtain ⟨order, hs⟩ := h.shaped
  obtain ⟨order', hs'⟩ := h.shaped'
  rw [Trajectory.mem_error_iff (hs.exact_order.trans hs.error_order.symm),
    Trajectory.mem_error_iff (hs'.exact_order.trans hs'.error_order.symm), h.points_eq]

/-- The points determine the bounds of the error in every unit. -/
theorem SamePoints.box_scale_eq (h : SamePoints dim t t') (f : ℚ) :
    (t.error.scale f).box = (t'.error.scale f).box := by
  apply box_eq_of_mem_iff
  intro x
  simp only [mem_scale, h.mem_error_iff]

/-- The points determine the relaxations of a rectifier. -/
theorem SamePoints.relax_eq (h : SamePoints dim t t') {ceiling : ℚ} {r r' : Relaxed ℚ}
    (hr : t.relax ceiling = .ok r) (hr' : t'.relax ceiling = .ok r') : r = r' := by
  obtain ⟨q, bx, bq, hs, hx, hq, hexact, hquant⟩ := relax_eq_ok hr
  obtain ⟨q', bx', bq', hs', hx', hq', hexact', hquant'⟩ := relax_eq_ok hr'
  rw [hull_eq] at hx hq hx' hq'
  cases hx
  cases hq
  cases hx'
  cases hq'
  have hboxes : t.exact.box = t'.exact.box := box_eq_of_mem_iff h.mem_exact_iff
  have hsums : q.box = q'.box := by
    apply box_eq_of_mem_iff
    intro x
    simp only [mem_sum hs, mem_sum hs', h.mem_exact_iff, h.mem_error_iff]
  rw [hsums, hquant'] at hquant
  cases r
  cases r'
  cases hquant
  simp_all

/-- The affine part of a layer keeps the points equal. -/
theorem AffineImage.samePoints {l : LiftedLayer ℚ} (hl : l.Fits) (h : SamePoints dim t t')
    (ha : AffineImage l t t₁) (ha' : AffineImage l t' t₁') : SamePoints l.outputDim t₁ t₁' := by
  obtain ⟨order, hs⟩ := h.shaped
  obtain ⟨order', hs'⟩ := h.shaped'
  refine ⟨⟨order, ha.shaped hl hs⟩, ⟨order', ha'.shaped hl hs'⟩, Set.ext fun p => ?_⟩
  rw [ha.mem_points, ha'.mem_points, h.points_eq]

/-- An activation keeps the points equal, and relaxes both trajectories in the same way. -/
theorem activationStep_samePoints {ceiling : ℚ} {activation : Activation} {r r' : Relaxed ℚ}
    (h : SamePoints dim t t') (ha : t.activationStep ceiling activation = .ok (t₁, r))
    (ha' : t'.activationStep ceiling activation = .ok (t₁', r')) :
    SamePoints dim t₁ t₁' ∧ r = r' := by
  obtain ⟨order, hs⟩ := h.shaped
  obtain ⟨order', hs'⟩ := h.shaped'
  have hshape := activationStep_shaped ha hs
  have hshape' := activationStep_shaped ha' hs'
  cases activation with
  | identity =>
    cases ha
    cases ha'
    exact ⟨h, rfl⟩
  | relu =>
    obtain ⟨hrelax, hrect⟩ := reluStep_eq_ok ha
    obtain ⟨hrelax', hrect'⟩ := reluStep_eq_ok ha'
    obtain rfl := h.relax_eq hrelax hrelax'
    obtain ⟨hx, hq⟩ := length_of_relax_ok hrelax
    obtain ⟨hx', hq'⟩ := length_of_relax_ok hrelax'
    refine ⟨⟨⟨_, hshape⟩, ⟨_, hshape'⟩, Set.ext fun p => ?_⟩, rfl⟩
    rw [hrect.mem_points hx hq, hrect'.mem_points hx' hq', h.points_eq, hs.exact_dim,
      hs'.exact_dim]

/-- One layer keeps the points equal, and both runs record the same about it. -/
theorem step_samePoints {scale ceiling : ℚ} {index : Nat} {l : LiftedLayer ℚ} (hl : l.Fits)
    {record record' : LayerRecord ℚ} (h : SamePoints dim t t')
    (hs : t.step scale ceiling index l = .ok (t₁, record))
    (hs' : t'.step scale ceiling index l = .ok (t₁', record')) :
    SamePoints l.outputDim t₁ t₁' ∧ record.SameFindings record' := by
  obtain ⟨u, r, bounds, ha, hact, hb, rfl⟩ := step_eq_ok hs
  obtain ⟨u', r', bounds', ha', hact', hb', rfl⟩ := step_eq_ok hs'
  have hu := AffineImage.samePoints hl h (affineStep_eq_ok ha) (affineStep_eq_ok ha')
  obtain ⟨hpoints, rfl⟩ := activationStep_samePoints hu hact hact'
  have hbounds := hpoints.box_scale_eq (1 / scale)
  rw [hull_eq] at hb hb'
  cases hb
  cases hb'
  exact ⟨hpoints, rfl, rfl, hbounds.symm, rfl, rfl⟩

/-- Layers that fit in a row keep the points equal, and both runs record the same about each. -/
theorem run_samePoints {scale ceiling : ℚ} {index : Nat} {layers : List (LiftedLayer ℚ)}
    (hl : Chained dim layers) {records records' : List (LayerRecord ℚ)}
    (h : SamePoints dim t t')
    (hr : t.run scale ceiling index layers = .ok (t₁, records))
    (hr' : t'.run scale ceiling index layers = .ok (t₁', records')) :
    (∃ dim', SamePoints dim' t₁ t₁') ∧
      List.Forall₂ LayerRecord.SameFindings records records' := by
  induction layers generalizing t t' dim index records records' with
  | nil =>
    cases hr
    cases hr'
    exact ⟨⟨dim, h⟩, .nil⟩
  | cons l rest ih =>
    obtain ⟨_, hfits, hrest⟩ := hl
    obtain ⟨u, record, tail, hs, hrun, rfl⟩ := run_cons_eq_ok.mp hr
    obtain ⟨u', record', tail', hs', hrun', rfl⟩ := run_cons_eq_ok.mp hr'
    obtain ⟨hu, hrecord⟩ := step_samePoints hfits h hs hs'
    obtain ⟨hend, htail⟩ := ih hrest hu hrun hrun'
    exact ⟨hend, .cons hrecord htail⟩

/-! ## The input region -/

/-- The pair of points before the first layer, for a point of a region with the given center. -/
def startPoint (center quantizedCenter : List ℚ) (errors : List (ℚ × ℚ)) (x rest : List ℚ) :
    List ℚ × List ℚ :=
  (x, Vec.add (Vec.sub quantizedCenter center)
    (Vec.add (Vec.mul (errors.map Prod.fst) (Vec.sub x center))
      (Vec.mul (errors.map Prod.snd) rest)))

theorem Starts.value_eq {region quantized : Zonotope ℚ} {errors : List (ℚ × ℚ)}
    (h : Starts region quantized errors t) {noise rest : List ℚ}
    (hn : noise.length = region.order) (hrest : rest.length = region.dim) :
    (t.exact.value (noise ++ rest), t.error.value (noise ++ rest)) =
      startPoint region.center quantized.center errors (region.value noise) rest := by
  have hlen := h.length_eq
  have hexact : t.exact.value (noise ++ rest) = region.value noise := by
    rw [h.exact_eq]
    exact region.value_pad _ hn
  have hlinear : region.generators.mulVec noise = Vec.sub (region.value noise) region.center := by
    apply List.ext_getElem
    · simp
    · intro i _ _
      simp [value, Vec.sub, Vec.add]
  have herror : t.error.value (noise ++ rest) =
      (startPoint region.center quantized.center errors (region.value noise) rest).2 := by
    rw [value, h.error_center, h.error_generators,
      Matrix.mulVec_beside _ _ _ _ (by simp [hn]), Matrix.mulVec_scaleRows,
      Matrix.mulVec_diagonal _ _ (by simp [hrest, hlen]), hlinear]
    rfl
  exact Prod.ext hexact herror

theorem Starts.mem_points {region quantized : Zonotope ℚ} {errors : List (ℚ × ℚ)}
    (h : Starts region quantized errors t) {p : List ℚ × List ℚ} :
    p ∈ t.points ↔ ∃ x ∈ region, ∃ rest, IsNoise region.dim rest ∧
      startPoint region.center quantized.center errors x rest = p := by
  have horder : t.exact.order = region.order + region.dim := by
    rw [h.exact_eq, order_pad]
  constructor
  · rintro ⟨noise, hn, rfl⟩
    rw [horder] at hn
    obtain ⟨noise, rest, rfl, hn, hrest⟩ := hn.split
    exact ⟨_, region.value_mem hn, rest, hrest, (h.value_eq hn.length_eq hrest.length_eq).symm⟩
  · rintro ⟨x, hx, rest, hrest, rfl⟩
    obtain ⟨noise, hn, rfl⟩ := mem_iff_exists_value.mp hx
    refine ⟨noise ++ rest, ?_, h.value_eq hn.length_eq hrest.length_eq⟩
    rw [horder]
    exact hn.append hrest

/-- Regions with the same points start trajectories with the same points: their hulls agree, so
they are rounded to the same box with the same errors. -/
theorem start_samePoints {cfg : EngineConfig} {f : Format} (hf : f.Valid) {z z' : Zonotope ℚ}
    {method method' : RegionMethod} (h : ∀ x, x ∈ z ↔ x ∈ z')
    (hs : start cfg f z = .ok (t, method)) (hs' : start cfg f z' = .ok (t', method')) :
    SamePoints z.dim t t' := by
  have hbox := box_eq_of_mem_iff h
  have hdim : z.dim = z'.dim := by rw [← length_box, hbox, length_box]
  have hshaped := start_shaped hs
  have hshaped' := start_shaped hs'
  rw [← hdim] at hshaped'
  obtain ⟨_, q, _, errors, hh, hq, hqh, he, hstart⟩ := start_eq_ok hs
  obtain ⟨_, q', _, errors', hh', hq', hqh', he', hstart'⟩ := start_eq_ok hs'
  rw [hull_eq] at hh hqh hh' hqh'
  cases hh
  cases hqh
  cases hh'
  cases hqh'
  obtain rfl := Format.quantizeRegion_eq_ok hf hq
  obtain rfl := Format.quantizeRegion_eq_ok hf hq'
  have herrors : errors = errors' := by
    rw [radii_eq_radius z, hbox, ← radii_eq_radius z', he'] at he
    exact (Except.ok.inj he).symm
  refine ⟨⟨_, hshaped⟩, ⟨_, hshaped'⟩, Set.ext fun p => ?_⟩
  rw [hstart.mem_points, hstart'.mem_points, herrors, center_eq_midpoints z, hbox,
    ← center_eq_midpoints z', hdim]
  simp only [h]

end Trajectory

/-! ## The whole propagation -/

/-- Whether there is an analysis depends on the configuration and on the dimension only. -/
theorem exists_propagate_iff (cfg : EngineConfig) (n : Network ℚ) (c : Config)
    (region : Zonotope ℚ) :
    (∃ a, propagate cfg n c region = .ok a) ↔ c.validate = .ok () ∧ region.dim = n.inputDim ∧
      Format.Admits cfg.method region.dim cfg.vertexLimit := by
  constructor
  · rintro ⟨a, h⟩
    obtain ⟨hd, fixed, start, method, _, _, hf, hs, _, _⟩ := propagate_eq_ok.mp h
    obtain ⟨_, _, hv, _, _, rfl⟩ := fixedPoint_eq_ok hf
    obtain ⟨_, _, _, _, _, hq, _⟩ := Trajectory.start_eq_ok hs
    exact ⟨hv, hd.symm, Format.admits_of_quantizeRegion_ok (Config.validate_eq_ok.mp hv).input hq⟩
  · rintro ⟨hv, hd, hm⟩
    exact propagate_ok cfg n hv hd hm

/-- Regions with the same points have the same error bounds, in the trace and at the end. -/
theorem propagate_of_mem_iff {cfg : EngineConfig} {n : Network ℚ} {c : Config}
    {z z' : Zonotope ℚ} {a a' : Analysis ℚ} (h : ∀ x, x ∈ z ↔ x ∈ z')
    (ha : propagate cfg n c z = .ok a) (ha' : propagate cfg n c z' = .ok a') :
    a.error.box = a'.error.box ∧ List.Forall₂ LayerRecord.SameFindings a.trace a'.trace := by
  obtain ⟨hd, fixed, start, method, t, trace, hf, hs, hr, rfl⟩ := propagate_eq_ok.mp ha
  obtain ⟨_, fixed', start', method', t', trace', hf', hs', hr', rfl⟩ := propagate_eq_ok.mp ha'
  obtain rfl := Except.ok.inj (hf.symm.trans hf')
  obtain ⟨quantWeight, quantBias, hv, _, _, rfl⟩ := fixedPoint_eq_ok hf
  have hstart := Trajectory.start_samePoints (Config.validate_eq_ok.mp hv).input h hs hs'
  have hchained := chained_liftLayers c.scale quantWeight quantBias n
  rw [hd] at hchained
  obtain ⟨⟨_, hend⟩, htrace⟩ := Trajectory.run_samePoints hchained hstart hr hr'
  exact ⟨hend.box_scale_eq _, htrace⟩

/-- The names of the noise symbols do not matter.  A region with its generator columns in another
order, with other signs or with columns of zeros behind them gives an analysis exactly if the
region does; the error has the same center and the same bounds, and every record has the same
bounds and the same counts. -/
theorem propagate_relabeled (cfg : EngineConfig) (n : Network ℚ) (c : Config) (z z' : Zonotope ℚ)
    (h : z.Relabeled z') :
    ((∃ a, propagate cfg n c z = .ok a) ↔ ∃ a', propagate cfg n c z' = .ok a') ∧
    ∀ a a', propagate cfg n c z = .ok a → propagate cfg n c z' = .ok a' →
      a'.error.center = a.error.center ∧
      (∃ bounds, a.errorBounds = .ok bounds ∧ a'.errorBounds = .ok bounds) ∧
      List.Forall₂ LayerRecord.SameFindings a.trace a'.trace := by
  have hbox := box_eq_of_mem_iff h.mem_iff
  have hdim : z'.dim = z.dim := by rw [← length_box, ← hbox, length_box]
  constructor
  · rw [exists_propagate_iff, exists_propagate_iff, hdim]
  · intro a a' ha ha'
    obtain ⟨herror, htrace⟩ := propagate_of_mem_iff h.mem_iff ha ha'
    refine ⟨?_, ⟨a.error.box, a.error.hull_eq, ?_⟩, htrace⟩
    · rw [center_eq_midpoints, center_eq_midpoints, herror]
    · rw [herror]
      exact a'.error.hull_eq

/-- `smallRegion` with the other sign of its generator. -/
def turnedRegion : Zonotope ℚ where
  center := [0, 1 / 8]
  generators := ⟨1, [[-1 / 4], [1 / 8]], by decide⟩
  height_eq := rfl

/-- `turnedRegion` with a column of zeros before its generator. -/
def shiftedRegion : Zonotope ℚ where
  center := [0, 1 / 8]
  generators := ⟨2, [[0, -1 / 4], [0, 1 / 8]], by decide⟩
  height_eq := rfl

/-- The generator of `smallRegion` turned around, with a column of zeros that then changes places
with it. -/
theorem smallNetwork_relabeled :
    smallRegion.Relabeled shiftedRegion ∧
      ∃ a a', propagate .standard smallNetwork .standard smallRegion = .ok a ∧
        propagate .standard smallNetwork .standard shiftedRegion = .ok a' ∧
        a'.error.center = a.error.center ∧
        (∃ bounds, a.errorBounds = .ok bounds ∧ a'.errorBounds = .ok bounds) ∧
        List.Forall₂ LayerRecord.SameFindings a.trace a'.trace := by
  have hflip : smallRegion.Relabeled turnedRegion := .flipped rfl (by decide +kernel)
  have hswap : (turnedRegion.pad 1).Relabeled shiftedRegion := .permuted rfl (by decide +kernel)
  have h : smallRegion.Relabeled shiftedRegion := (hflip.trans (.padded turnedRegion 1)).trans hswap
  obtain ⟨hiff, hsame⟩ := propagate_relabeled .standard smallNetwork .standard _ _ h
  obtain ⟨a, ha⟩ := smallNetwork_propagates
  obtain ⟨a', ha'⟩ := hiff.mp ⟨a, ha⟩
  exact ⟨h, a, a', ha, ha', hsame a a' ha ha'⟩

end QuantEnclosure
