import QuantEnclosure.Propagation
import QuantEnclosure.Proofs.Shape

/-!
What one step of the propagation does, in any arithmetic.  Each theorem reads a successful step
backwards: the affine part (`affineStep_eq_ok`), the rectifier (`reluStep_eq_ok`), a whole layer
(`step_eq_ok`), the layers one after the other (`run_cons_eq_ok`) and the input region
(`start_eq_ok`).  Every fact about runs is derived from these.
-/

namespace QuantEnclosure.Trajectory

variable {α : Type} [Scalar α]

omit [Scalar α] in
theorem ensureAligned_eq_ok {t : Trajectory α} :
    t.ensureAligned = .ok () ↔ t.exact.order = t.error.order ∧ t.exact.dim = t.error.dim := by
  unfold ensureAligned
  rw [ensureDim_bind_eq_ok]
  constructor
  · rintro ⟨ho, h⟩
    obtain ⟨hd, _⟩ := ensureDim_bind_eq_ok.mp h
    exact ⟨ho, hd⟩
  · rintro ⟨ho, hd⟩
    exact ⟨ho, ensureDim_bind_eq_ok.mpr ⟨hd, rfl⟩⟩

/-! ## The affine part -/

/-- The trajectory `t'` is the image of `t` under the affine part of a layer. -/
structure AffineImage (l : LiftedLayer α) (t t' : Trajectory α) : Prop where
  order_eq : t.exact.order = t.error.order
  dim_eq : t.exact.dim = t.error.dim
  input_eq : l.inputDim = t.exact.dim
  bias_eq : l.weight.height = l.bias.length
  exact_center : t'.exact.center = Vec.add (l.weight.mulVec t.exact.center) l.bias
  exact_generators : t'.exact.generators = l.weight.mul t.exact.generators
  error_center : t'.error.center =
    Vec.add (Vec.add ((l.quantWeight.sub l.weight).mulVec t.exact.center)
      (l.quantWeight.mulVec t.error.center)) (Vec.sub l.quantBias l.bias)
  error_generators : t'.error.generators =
    ((l.quantWeight.sub l.weight).mul t.exact.generators).add
      (l.quantWeight.mul t.error.generators)

theorem affineStep_eq_ok {l : LiftedLayer α} {t t' : Trajectory α}
    (h : t.affineStep l = .ok t') : AffineImage l t t' := by
  obtain ⟨_, ha, h⟩ := bind_eq_ok.mp h
  obtain ⟨ho, hd⟩ := ensureAligned_eq_ok.mp ha
  obtain ⟨hi, h⟩ := ensureDim_bind_eq_ok.mp h
  obtain ⟨error, he, h⟩ := bind_eq_ok.mp h
  obtain ⟨exact, hx, h⟩ := bind_eq_ok.mp h
  cases h
  obtain ⟨hec, heg⟩ := Zonotope.ofParts_eq_ok he
  obtain ⟨hxc, hxg, hb⟩ := Zonotope.affineMap_eq_ok hx
  exact ⟨ho, hd, hi, hb, hxc, hxg, hec, heg⟩

/-! ## The rectifier -/

namespace Relaxed

def slope (r : Relaxed α) : List α := r.exact.map fun p => p.1.slope

def offset (r : Relaxed α) : List α := r.exact.map fun p => p.1.offset

def residue (r : Relaxed α) : List α := r.exact.map fun p => p.1.error

def quantSlope (r : Relaxed α) : List α := r.quantized.map fun p => p.1.slope

def quantOffset (r : Relaxed α) : List α := r.quantized.map fun p => p.1.offset

def quantResidue (r : Relaxed α) : List α := r.quantized.map fun p => p.1.error

section

omit [Scalar α]

@[simp] theorem length_slope (r : Relaxed α) : r.slope.length = r.exact.length := List.length_map _

@[simp] theorem length_offset (r : Relaxed α) : r.offset.length = r.exact.length :=
  List.length_map _

@[simp] theorem length_residue (r : Relaxed α) : r.residue.length = r.exact.length :=
  List.length_map _

@[simp] theorem length_quantSlope (r : Relaxed α) : r.quantSlope.length = r.quantized.length :=
  List.length_map _

@[simp] theorem length_quantOffset (r : Relaxed α) : r.quantOffset.length = r.quantized.length :=
  List.length_map _

@[simp] theorem length_quantResidue (r : Relaxed α) :
    r.quantResidue.length = r.quantized.length :=
  List.length_map _

end

end Relaxed

/-- What the relaxations of a rectifier step are taken from: the interval hulls of the real and
of the quantized trajectory. -/
theorem relax_eq_ok {ceiling : α} {t : Trajectory α} {r : Relaxed α}
    (h : t.relax ceiling = .ok r) :
    ∃ quantized exactHull quantizedHull, t.exact.sum t.error = .ok quantized ∧
      t.exact.hull = .ok exactHull ∧ quantized.hull = .ok quantizedHull ∧
      r.exact = exactHull.map reluRelaxation ∧
      quantizedHull.mapM (fun b => roundClampRelaxation b ceiling) = .ok r.quantized := by
  obtain ⟨quantized, hq, h⟩ := bind_eq_ok.mp h
  obtain ⟨exactHull, hx, h⟩ := bind_eq_ok.mp h
  obtain ⟨quantizedHull, hz, h⟩ := bind_eq_ok.mp h
  obtain ⟨staircase, hs, h⟩ := bind_eq_ok.mp h
  cases h
  exact ⟨quantized, exactHull, quantizedHull, hq, Zonotope.hull_of_finiteHull_ok hx,
    Zonotope.hull_of_finiteHull_ok hz, rfl, hs⟩

theorem length_of_relax_ok {ceiling : α} {t : Trajectory α} {r : Relaxed α}
    (h : t.relax ceiling = .ok r) :
    r.exact.length = t.exact.dim ∧ r.quantized.length = t.exact.dim := by
  obtain ⟨q, bx, bq, hs, hx, hq, hr, hm⟩ := relax_eq_ok h
  obtain ⟨hd, hc, _⟩ := Zonotope.sum_eq_ok hs
  have hqd : q.dim = t.exact.dim := by
    rw [← Zonotope.length_center, hc]
    simp [hd]
  have hx := Zonotope.length_of_hull_ok hx
  have hq := Zonotope.length_of_hull_ok hq
  exact ⟨by simp [hr, hx], by rw [length_of_mapM_ok hm, hq, hqd]⟩

/-- The trajectory `t'` is the image of `t` under the relaxations `r`. -/
structure Rectified (r : Relaxed α) (t t' : Trajectory α) : Prop where
  order_eq : t.exact.order = t.error.order
  dim_eq : t.exact.dim = t.error.dim
  exact_center : t'.exact.center = Vec.add (Vec.mul r.slope t.exact.center) r.offset
  exact_generators : t'.exact.generators =
    ((t.exact.generators.scaleRows r.slope).beside (Matrix.diagonal r.residue)).beside
      (Matrix.zeros t'.exact.dim t.exact.dim)
  error_center : t'.error.center =
    Vec.add (Vec.add (Vec.mul (Vec.sub r.quantSlope r.slope) t.exact.center)
      (Vec.mul r.quantSlope t.error.center)) (Vec.sub r.quantOffset r.offset)
  error_generators : t'.error.generators =
    (((t.exact.generators.scaleRows (Vec.sub r.quantSlope r.slope)).add
      (t.error.generators.scaleRows r.quantSlope)).beside
        (Matrix.diagonal (r.residue.map (- ·)))).beside (Matrix.diagonal r.quantResidue)

theorem reluStep_eq_ok {ceiling : α} {t t' : Trajectory α} {r : Relaxed α}
    (h : t.reluStep ceiling = .ok (t', r)) : t.relax ceiling = .ok r ∧ Rectified r t t' := by
  obtain ⟨_, ha, h⟩ := bind_eq_ok.mp h
  obtain ⟨ho, hd⟩ := ensureAligned_eq_ok.mp ha
  obtain ⟨relaxed, hr, h⟩ := bind_eq_ok.mp h
  obtain ⟨fromExact, hfx, h⟩ := bind_eq_ok.mp h
  obtain ⟨fromError, hfe, h⟩ := bind_eq_ok.mp h
  obtain ⟨e₁, he₁, h⟩ := bind_eq_ok.mp h
  obtain ⟨e₂, he₂, h⟩ := bind_eq_ok.mp h
  obtain ⟨e₃, he₃, h⟩ := bind_eq_ok.mp h
  obtain ⟨generators, hg, h⟩ := bind_eq_ok.mp h
  obtain ⟨x₁, hx₁, h⟩ := bind_eq_ok.mp h
  obtain ⟨x₂, hx₂, h⟩ := bind_eq_ok.mp h
  cases h
  obtain ⟨_, rfl⟩ := Zonotope.rowScaling_eq_ok hfx
  obtain ⟨_, rfl⟩ := Zonotope.rowScaling_eq_ok hfe
  obtain ⟨_, rfl⟩ := Zonotope.rowScaling_eq_ok hg
  obtain ⟨c₁, g₁⟩ := Zonotope.ofParts_eq_ok he₁
  obtain ⟨_, c₂, g₂⟩ := Zonotope.appendColumns_eq_ok he₂
  obtain ⟨_, c₃, g₃⟩ := Zonotope.appendColumns_eq_ok he₃
  obtain ⟨d₁, k₁⟩ := Zonotope.ofParts_eq_ok hx₁
  obtain ⟨_, d₂, k₂⟩ := Zonotope.appendColumns_eq_ok hx₂
  refine ⟨hr, ⟨ho, hd, ?_, ?_, ?_, ?_⟩⟩
  · exact d₂.trans d₁
  · show x₂.generators.beside _ = _
    rw [k₂, k₁]
    rfl
  · exact c₃.trans (c₂.trans c₁)
  · rw [g₃, g₂, g₁]
    rfl

/-! ## Layers -/

/-- The parts of a step through one layer. -/
theorem step_eq_ok {scale ceiling : α} {index : Nat} {l : LiftedLayer α} {t t' : Trajectory α}
    {record : LayerRecord α} (h : t.step scale ceiling index l = .ok (t', record)) :
    ∃ t₁ relaxed bounds, t.affineStep l = .ok t₁ ∧
      t₁.activationStep ceiling l.activation = .ok (t', relaxed) ∧
      (t'.error.scale (1 / scale)).hull = .ok bounds ∧
      record =
        { index := index
          activation := l.activation
          exactGenerators := t'.exact.order
          errorGenerators := t'.error.order
          errorBounds := bounds
          unstable := relaxed.exact.countP fun r => r.2 == .unstable
          cases := countCases (relaxed.quantized.map Prod.snd) } := by
  obtain ⟨t₁, ha, h⟩ := bind_eq_ok.mp h
  obtain ⟨⟨t₂, relaxed⟩, hr, h⟩ := bind_eq_ok.mp h
  obtain ⟨bounds, hb, h⟩ := bind_eq_ok.mp h
  cases h
  exact ⟨t₁, relaxed, bounds, ha, hr, hb, rfl⟩

theorem run_cons_eq_ok {scale ceiling : α} {index : Nat} {l : LiftedLayer α}
    {rest : List (LiftedLayer α)} {t t' : Trajectory α} {records : List (LayerRecord α)} :
    t.run scale ceiling index (l :: rest) = .ok (t', records) ↔
      ∃ t₁ record tail, t.step scale ceiling index l = .ok (t₁, record) ∧
        t₁.run scale ceiling (index + 1) rest = .ok (t', tail) ∧ records = record :: tail := by
  rw [run]
  constructor
  · intro h
    split at h
    · cases h
    · next t₁ record hs =>
      obtain ⟨⟨t₂, tail⟩, hr, h⟩ := bind_eq_ok.mp h
      cases h
      exact ⟨t₁, record, tail, hs, hr, rfl⟩
  · rintro ⟨t₁, record, tail, hs, hr, rfl⟩
    rw [hs]
    exact bind_eq_ok.mpr ⟨(t', tail), hr, rfl⟩

/-- A run through some layers and then some more is two runs, one after the other. -/
theorem run_append_eq_ok {scale ceiling : α} {index : Nat} {front back : List (LiftedLayer α)}
    {t t' : Trajectory α} {records : List (LayerRecord α)} :
    t.run scale ceiling index (front ++ back) = .ok (t', records) ↔
      ∃ t₁ head tail, t.run scale ceiling index front = .ok (t₁, head) ∧
        t₁.run scale ceiling (index + front.length) back = .ok (t', tail) ∧
        records = head ++ tail := by
  induction front generalizing index t records with
  | nil =>
    constructor
    · intro h
      exact ⟨t, [], records, rfl, h, rfl⟩
    · rintro ⟨t₁, head, tail, hf, hb, rfl⟩
      cases hf
      exact hb
  | cons l front ih =>
    simp only [List.cons_append, run_cons_eq_ok, ih, List.length_cons]
    constructor
    · rintro ⟨t₁, record, _, hs, ⟨t₂, head, tail, hf, hb, rfl⟩, rfl⟩
      refine ⟨t₂, record :: head, tail, ⟨t₁, record, head, hs, hf, rfl⟩, ?_, rfl⟩
      rw [← hb]
      congr 1
      omega
    · rintro ⟨t₂, _, tail, ⟨t₁, record, head, hs, hf, rfl⟩, hb, rfl⟩
      refine ⟨t₁, record, head ++ tail, hs, ⟨t₂, head, tail, hf, ?_, rfl⟩, rfl⟩
      rw [← hb]
      congr 1
      omega

/-! ## The input region -/

/-- The coordinates of a region are rounded one after the other. -/
theorem inputErrors_eq_mapM (f : Format) (hs qs : List (Bound α)) (rs ss : List α) :
    inputErrors f hs qs rs ss =
      ((hs.zip qs).zip (rs.zip ss)).mapM fun p => inputError f p.1.1 p.1.2 p.2.1 p.2.2 := by
  fun_induction inputErrors f hs qs rs ss with
  | case1 h hs q qs r rs s ss ih =>
    rw [ih]
    simp only [List.zip_cons_cons, List.mapM_cons]
    rfl
  | case2 hs qs rs ss hne =>
    match hs, qs, rs, ss, hne with
    | [], _, _, _, _ => rfl
    | _ :: _, [], _, _, _ => rfl
    | _ :: _, _ :: _, [], _, _ => rfl
    | _ :: _, _ :: _, _ :: _, [], _ => rfl
    | _ :: _, _ :: _, _ :: _, _ :: _, hne => exact (hne _ _ _ _ _ _ _ _ rfl rfl rfl rfl).elim

theorem length_of_inputErrors_ok {f : Format} {hs qs : List (Bound α)} {rs ss : List α}
    {errors : List (α × α)} (h : inputErrors f hs qs rs ss = .ok errors)
    (hq : qs.length = hs.length) (hr : rs.length = hs.length) (hs' : ss.length = hs.length) :
    errors.length = hs.length := by
  rw [inputErrors_eq_mapM] at h
  simp [length_of_mapM_ok h, hq, hr, hs']

/-- The trajectory `t` starts at `region`, whose coordinates have the given rounding errors. -/
structure Starts (region quantized : Zonotope α) (errors : List (α × α)) (t : Trajectory α) :
    Prop where
  length_eq : errors.length = region.dim
  exact_eq : t.exact = region.pad region.dim
  error_center : t.error.center = Vec.sub quantized.center region.center
  error_generators : t.error.generators =
    (region.generators.scaleRows (errors.map Prod.fst)).beside
      (Matrix.diagonal (errors.map Prod.snd))

theorem start_eq_ok {cfg : EngineConfig} {f : Format} {region : Zonotope α} {t : Trajectory α}
    {method : RegionMethod} (h : start cfg f region = .ok (t, method)) :
    ∃ hull quantized quantizedHull errors, region.hull = .ok hull ∧
      f.quantizeRegion region cfg.method cfg.vertexLimit = .ok (quantized, method) ∧
      quantized.hull = .ok quantizedHull ∧
      inputErrors f hull quantizedHull region.radii quantized.radii = .ok errors ∧
      Starts region quantized errors t := by
  obtain ⟨hull, hh, h⟩ := bind_eq_ok.mp h
  obtain ⟨⟨quantized, used⟩, hq, h⟩ := bind_eq_ok.mp h
  obtain ⟨quantizedHull, hqh, h⟩ := bind_eq_ok.mp h
  obtain ⟨errors, he, h⟩ := bind_eq_ok.mp h
  obtain ⟨linear, hl, h⟩ := bind_eq_ok.mp h
  obtain ⟨e₁, he₁, h⟩ := bind_eq_ok.mp h
  obtain ⟨e₂, he₂, h⟩ := bind_eq_ok.mp h
  cases h
  obtain ⟨hn, rfl⟩ := Zonotope.rowScaling_eq_ok hl
  obtain ⟨c₁, g₁⟩ := Zonotope.ofParts_eq_ok he₁
  obtain ⟨_, c₂, g₂⟩ := Zonotope.appendColumns_eq_ok he₂
  refine ⟨hull, quantized, quantizedHull, errors, Zonotope.hull_of_finiteHull_ok hh, hq, hqh, he,
    ⟨?_, rfl, ?_, ?_⟩⟩
  · simpa using hn.symm
  · rw [c₂, c₁]
  · rw [g₂, g₁]

end Trajectory

/-! ## The whole propagation -/

variable {α : Type} [Scalar α]

theorem fixedPoint_eq_ok {n : Network α} {c : Config} {fixed : FixedPointNetwork α}
    (h : n.fixedPoint c = .ok fixed) :
    ∃ quantWeight quantBias : α → α, c.validate = .ok () ∧
      c.weights.quantizer = .ok quantWeight ∧ c.biases.quantizer = .ok quantBias ∧
      fixed =
        { layers := liftLayers c.scale quantWeight quantBias n.layers
          input := c.input
          scale := c.scale
          ceiling := c.ceiling } := by
  obtain ⟨_, hv, h⟩ := bind_eq_ok.mp h
  obtain ⟨quantWeight, hw, h⟩ := bind_eq_ok.mp h
  obtain ⟨quantBias, hb, h⟩ := bind_eq_ok.mp h
  cases h
  exact ⟨quantWeight, quantBias, hv, hw, hb, rfl⟩

theorem propagate_eq_ok {cfg : EngineConfig} {n : Network α} {c : Config} {region : Zonotope α}
    {a : Analysis α} :
    propagate cfg n c region = .ok a ↔
      n.inputDim = region.dim ∧ ∃ fixed start method t trace, n.fixedPoint c = .ok fixed ∧
        Trajectory.start cfg fixed.input region = .ok (start, method) ∧
        start.run fixed.scale fixed.ceiling 0 fixed.layers = .ok (t, trace) ∧
        a = ⟨t.error.scale (1 / fixed.scale), trace, method⟩ := by
  unfold propagate
  rw [ensureDim_bind_eq_ok]
  constructor
  · rintro ⟨hd, h⟩
    obtain ⟨fixed, hf, h⟩ := bind_eq_ok.mp h
    obtain ⟨⟨start, method⟩, hs, h⟩ := bind_eq_ok.mp h
    obtain ⟨⟨t, trace⟩, hr, h⟩ := bind_eq_ok.mp h
    cases h
    exact ⟨hd, fixed, start, method, t, trace, hf, hs, hr, rfl⟩
  · rintro ⟨hd, fixed, start, method, t, trace, hf, hs, hr, rfl⟩
    refine ⟨hd, bind_eq_ok.mpr ⟨fixed, hf, ?_⟩⟩
    refine bind_eq_ok.mpr ⟨(start, method), hs, ?_⟩
    exact bind_eq_ok.mpr ⟨(t, trace), hr, rfl⟩

/-- Once the region has a trajectory, the propagation is the run through the layers. -/
theorem propagate_eq_map_run {cfg : EngineConfig} {n : Network α} {c : Config}
    {region : Zonotope α} {fixed : FixedPointNetwork α} {start : Trajectory α}
    {method : RegionMethod} (hd : n.inputDim = region.dim) (hf : n.fixedPoint c = .ok fixed)
    (hs : Trajectory.start cfg fixed.input region = .ok (start, method)) :
    propagate cfg n c region = (start.run fixed.scale fixed.ceiling 0 fixed.layers).map
      fun p => ⟨p.1.error.scale (1 / fixed.scale), p.2, method⟩ := by
  unfold propagate
  rw [ensureDim_of_eq _ hd, hf]
  simp only [bind, Except.bind]
  rw [hs]
  dsimp only
  cases start.run fixed.scale fixed.ceiling 0 fixed.layers with
  | error g => rfl
  | ok p => rfl

end QuantEnclosure
