import QuantEnclosure.Proofs.Network.Lift
import QuantEnclosure.Proofs.Propagation.Steps
import QuantEnclosure.Proofs.Relaxation.ClosedForm
import QuantEnclosure.Proofs.Zonotope.Points

/-!
Two concrete passes inside one trajectory, in exact arithmetic.  `Tracks` says that at one noise
vector the trajectory stands at the real activations, and its error at the difference between the
quantized and the real activations.  The affine part of a layer keeps this for the same noise
vector, the rectifier for a longer one, and so does every run through the layers.
-/

namespace QuantEnclosure.Trajectory

open Scalar Zonotope

/-- At `noise` the trajectory stands at `real`, and `quantized` is off by its error. -/
structure Tracks (t : Trajectory ℚ) (noise real quantized : List ℚ) : Prop where
  isNoise : IsNoise t.exact.order noise
  order_eq : t.error.order = t.exact.order
  real_eq : t.exact.value noise = real
  error_eq : t.error.value noise = Vec.sub quantized real
  length_eq : quantized.length = real.length

variable {t t' : Trajectory ℚ} {noise real quantized : List ℚ}

/-- The trajectory and its error together stand at the quantized activations. -/
theorem Tracks.quantized_eq (ht : t.Tracks noise real quantized) :
    Vec.add (t.exact.value noise) (t.error.value noise) = quantized := by
  rw [ht.real_eq, ht.error_eq]
  apply List.ext_getElem
  · simp [ht.length_eq]
  · intro i _ _
    simp [Vec.add, Vec.sub]

/-! ## The affine part -/

theorem AffineImage.exact_value {l : LiftedLayer ℚ} (h : AffineImage l t t') :
    t'.exact.value noise = Vec.add (l.weight.mulVec (t.exact.value noise)) l.bias :=
  value_affine h.exact_center h.exact_generators noise

theorem AffineImage.error_value {l : LiftedLayer ℚ} (h : AffineImage l t t') :
    t'.error.value noise =
      Vec.add (Vec.add ((l.quantWeight.sub l.weight).mulVec (t.exact.value noise))
        (l.quantWeight.mulVec (t.error.value noise))) (Vec.sub l.quantBias l.bias) := by
  have hexact := (l.quantWeight.sub l.weight).mulVec_vecAdd t.exact.center
    (t.exact.generators.mulVec noise) (by simp)
  have herror := l.quantWeight.mulVec_vecAdd t.error.center (t.error.generators.mulVec noise)
    (by simp)
  unfold value
  rw [h.error_center, h.error_generators, Matrix.mulVec_add _ _ _ (by simp [h.order_eq]),
    Matrix.mulVec_mul, Matrix.mulVec_mul, hexact, herror]
  apply List.ext_getElem
  · simp
  · intro i _ _
    simp only [Vec.add, Vec.sub, List.getElem_zipWith]
    ring

/-- The affine part of a layer takes both passes along on the same noise, since the real parameters
cancel: `(Ŵ - W) a + Ŵ (â - a) + (b̂ - b) = (Ŵ â + b̂) - (W a + b)`. -/
theorem AffineImage.tracks {l : LiftedLayer ℚ} (h : AffineImage l t t') (hl : l.Fits)
    (ht : t.Tracks noise real quantized) :
    t'.Tracks noise (Vec.add (l.weight.mulVec real) l.bias)
      (Vec.add (l.quantWeight.mulVec quantized) l.quantBias) := by
  have hexact : t'.exact.order = t.exact.order := by
    rw [← cols_generators, h.exact_generators, Matrix.cols_mul, cols_generators]
  have herror : t'.error.order = t.exact.order := by
    rw [← cols_generators, h.error_generators]
    simp [h.order_eq]
  have hcols := l.quantWeight.mulVec_sub l.weight real hl.cols_eq
  have hdiff := l.quantWeight.mulVec_vecSub quantized real ht.length_eq
  constructor
  · rw [hexact]
    exact ht.isNoise
  · rw [hexact, herror]
  · rw [h.exact_value, ht.real_eq]
  · rw [h.error_value, ht.real_eq, ht.error_eq, hcols, hdiff]
    apply List.ext_getElem
    · simp
      omega
    · intro i _ _
      simp only [Vec.add, Vec.sub, List.getElem_zipWith]
      ring
  · simp [hl.height_eq, hl.bias_eq, hl.quantBias_eq]

/-! ## The rectifier -/

section Rectifier

variable {r : Relaxed ℚ} {first : List ℚ}

/-- The relaxed real trajectory: the lines, and the share of the first new symbols. -/
theorem Rectified.exact_value (h : Rectified r t t') (second : List ℚ)
    (hn : noise.length = t.exact.order) (hr : r.exact.length = t.exact.dim)
    (h₁ : first.length = t.exact.dim) :
    t'.exact.value (noise ++ first ++ second) =
      Vec.add (Vec.add (Vec.mul r.slope (t.exact.value noise)) r.offset)
        (Vec.mul r.residue first) := by
  have hdim : t'.exact.dim = t.exact.dim := by
    rw [← length_center, h.exact_center]
    simp [hr]
  unfold value
  rw [h.exact_center, h.exact_generators, Matrix.mulVec_beside _ _ _ _ (by simp [hn, h₁, hr]),
    Matrix.mulVec_beside _ _ _ _ (by simp [hn]), Matrix.mulVec_scaleRows, Matrix.mulVec_diagonal _ _
    (by simp [h₁, hr]), Matrix.mulVec_zeros]
  apply List.ext_getElem
  · simp [hr, h₁, hdim]
  · intro i _ _
    simp only [Vec.add, Vec.mul, List.getElem_zipWith, List.getElem_replicate]
    ring

/-- The relaxed error: the difference of the lines, and the shares of both kinds of symbols. -/
theorem Rectified.error_value {second : List ℚ} (h : Rectified r t t')
    (hn : noise.length = t.exact.order) (hr : r.exact.length = t.exact.dim)
    (hq : r.quantized.length = t.exact.dim)
    (h₁ : first.length = t.exact.dim) (h₂ : second.length = t.exact.dim) :
    t'.error.value (noise ++ first ++ second) =
      Vec.sub
        (Vec.add (Vec.add (Vec.mul r.quantSlope (Vec.add (t.exact.value noise)
          (t.error.value noise))) r.quantOffset) (Vec.mul r.quantResidue second))
        (Vec.add (Vec.add (Vec.mul r.slope (t.exact.value noise)) r.offset)
          (Vec.mul r.residue first)) := by
  have ho := h.order_eq
  have hd := h.dim_eq
  unfold value
  rw [h.error_center, h.error_generators,
    Matrix.mulVec_beside _ _ _ _ (by simp [hn, h₁, hr, ← ho]),
    Matrix.mulVec_beside _ _ _ _ (by simp [hn, ← ho]),
    Matrix.mulVec_add _ _ _ (by simp [ho]), Matrix.mulVec_scaleRows, Matrix.mulVec_scaleRows,
    Matrix.mulVec_diagonal _ _ (by simp [h₁, hr]),
    Matrix.mulVec_diagonal _ _ (by simp [h₂, hq])]
  apply List.ext_getElem
  · simp [hr, hq, h₁, h₂, ← hd]
  · intro i _ _
    simp only [Vec.add, Vec.mul, Vec.sub, List.getElem_zipWith, List.getElem_map]
    ring

end Rectifier

/-- The share of its error by which each relaxation misses its line. -/
def shares (relaxations : List (Relaxation ℚ)) (xs ys : List ℚ) : List ℚ :=
  List.zipWith (fun r p => r.share p.1 p.2) relaxations (xs.zip ys)

section Shares

variable {relaxations : List (Relaxation ℚ)} {xs ys : List ℚ}

theorem isNoise_shares (hx : xs.length = relaxations.length) (hy : ys.length = relaxations.length)
    (h : ∀ (i : Nat) (hr : i < relaxations.length) (hx : i < xs.length) (hy : i < ys.length),
      relaxations[i].Holds xs[i] ys[i]) :
    IsNoise relaxations.length (shares relaxations xs ys) := by
  constructor
  · simp [shares, hx, hy]
  · intro e he
    obtain ⟨i, hi, rfl⟩ := List.getElem_of_mem he
    have hr : i < relaxations.length := by
      simp only [shares, List.length_zipWith] at hi
      omega
    simpa [shares] using (h i hr (by omega) (by omega)).share_within

/-- The lines and the shares of the errors give back the relaxed function. -/
theorem lines_add_shares (hx : xs.length = relaxations.length)
    (hy : ys.length = relaxations.length)
    (h : ∀ (i : Nat) (hr : i < relaxations.length) (hx : i < xs.length) (hy : i < ys.length),
      relaxations[i].Holds xs[i] ys[i]) :
    Vec.add (Vec.add (Vec.mul (relaxations.map Relaxation.slope) xs)
      (relaxations.map Relaxation.offset))
      (Vec.mul (relaxations.map Relaxation.error) (shares relaxations xs ys)) = ys := by
  apply List.ext_getElem
  · simp [shares, hx, hy]
  · intro i _ hi
    have := (h i (by omega) (by omega) hi).eq_line_add
    simp only [Vec.add, Vec.mul, shares, List.getElem_zipWith, List.getElem_map, List.getElem_zip]
    exact this.symm

end Shares

/-- What a rectifier step relaxes over: one interval for each neuron of the real trajectory and
one for each of the quantized, which hold the numbers of every two passes that are tracked.  The
quantized pass is a point of the sum of both zonotopes, on two copies of the noise. -/
theorem relax_encloses {c : ℤ} (hc : 1 ≤ c) {r : Relaxed ℚ} (h : t.relax (c : ℚ) = .ok r) :
    ∃ exactHull quantizedHull : List (Bound ℚ),
      r = ⟨exactHull.map reluRelaxation,
        quantizedHull.map fun b => (staircaseRelaxation b c, (roundClampFormula b c).2)⟩ ∧
      ∀ {noise real quantized : List ℚ}, t.Tracks noise real quantized →
        List.Forall₂ (· ∈ ·) real exactHull ∧ List.Forall₂ (· ∈ ·) quantized quantizedHull := by
  obtain ⟨q, bx, bq, hs, hx, hq, hr, hm⟩ := relax_eq_ok h
  obtain ⟨_, _, hg⟩ := sum_eq_ok hs
  rw [hull_eq] at hx hq
  cases hx
  cases hq
  rw [mapM_ok _ fun b _ => roundClampRelaxation_eq b hc] at hm
  have hquantized := Except.ok.inj hm
  refine ⟨t.exact.box, q.box, by rw [hquantized, ← hr], ?_⟩
  intro noise real quantized ht
  have hvalue : q.value (noise ++ noise) = quantized := by
    rw [value_sum hs ht.isNoise.length_eq, ht.quantized_eq]
  have hnoise : IsNoise q.order (noise ++ noise) := by
    have := ht.isNoise.append ht.isNoise
    rw [← cols_generators, hg, Matrix.cols_beside, cols_generators, cols_generators, ht.order_eq]
    exact this
  have hexact := t.exact.value_forall₂_box ht.isNoise
  have hsum := q.value_forall₂_box hnoise
  rw [ht.real_eq] at hexact
  rw [hvalue] at hsum
  exact ⟨hexact, hsum⟩

/-- The relaxations of a rectifier step hold at both passes. -/
theorem relax_holds {c : ℤ} (hc : 1 ≤ c) {r : Relaxed ℚ} (h : t.relax (c : ℚ) = .ok r)
    (ht : t.Tracks noise real quantized) :
    (∀ (i : Nat) (hi : i < (r.exact.map Prod.fst).length) (hr : i < real.length)
        (hr' : i < (real.map rectify).length),
      (r.exact.map Prod.fst)[i].Holds real[i] (real.map rectify)[i]) ∧
    (∀ (i : Nat) (hi : i < (r.quantized.map Prod.fst).length) (hq : i < quantized.length)
        (hq' : i < (quantized.map (stair c)).length),
      (r.quantized.map Prod.fst)[i].Holds quantized[i] (quantized.map (stair c))[i]) := by
  obtain ⟨exactHull, quantizedHull, rfl, hmem⟩ := relax_encloses hc h
  obtain ⟨hreal, hquant⟩ := hmem ht
  constructor
  · intro i hi hr _
    simp only [List.getElem_map]
    exact reluRelaxation_holds (hreal.get hr (by simpa using hi))
  · intro i hi hq _
    simp only [List.getElem_map]
    exact staircaseRelaxation_holds (by omega) (hquant.get hq (by simpa using hi))

/-- A rectifier takes both passes along, with two new symbols for each neuron. -/
theorem Rectified.tracks {c : ℤ} (hc : 1 ≤ c) {r : Relaxed ℚ} (hr : t.relax (c : ℚ) = .ok r)
    (h : Rectified r t t') (ht : t.Tracks noise real quantized) :
    ∃ rest, t'.Tracks (noise ++ rest) (real.map rectify) (quantized.map (stair c)) := by
  obtain ⟨hlen, hqlen⟩ := length_of_relax_ok hr
  obtain ⟨hreal, hquant⟩ := relax_holds hc hr ht
  have hdim : real.length = t.exact.dim := by
    rw [← ht.real_eq]
    simp
  have hqdim : quantized.length = t.exact.dim := ht.length_eq.trans hdim
  have hx : real.length = (r.exact.map Prod.fst).length := by simp [hdim, hlen]
  have hx' : (real.map rectify).length = (r.exact.map Prod.fst).length := by simp [hdim, hlen]
  have hq : quantized.length = (r.quantized.map Prod.fst).length := by simp [hqdim, hqlen]
  have hq' : (quantized.map (stair c)).length = (r.quantized.map Prod.fst).length := by
    simp [hqdim, hqlen]
  have hn₁ := isNoise_shares hx hx' hreal
  have hn₂ := isNoise_shares hq hq' hquant
  have hl₁ := lines_add_shares hx hx' hreal
  have hl₂ := lines_add_shares hq hq' hquant
  simp only [List.map_map] at hl₁ hl₂
  rw [List.length_map, hlen] at hn₁
  rw [List.length_map, hqlen] at hn₂
  generalize shares (r.exact.map Prod.fst) real (real.map rectify) = first at hn₁ hl₁
  generalize shares (r.quantized.map Prod.fst) quantized (quantized.map (stair c)) = second
    at hn₂ hl₂
  refine ⟨first ++ second, ?_⟩
  have hexact := h.exact_value second ht.isNoise.length_eq hlen hn₁.length_eq
  have herror := h.error_value ht.isNoise.length_eq hlen hqlen hn₁.length_eq hn₂.length_eq
  have horder : t'.exact.order = t.exact.order + (t.exact.dim + t.exact.dim) := by
    rw [← cols_generators, h.exact_generators]
    simp [hlen, Nat.add_assoc]
  have horder' : t'.error.order = t.exact.order + (t.exact.dim + t.exact.dim) := by
    rw [← cols_generators, h.error_generators]
    simp [hlen, hqlen, ← h.order_eq, Nat.add_assoc]
  rw [List.append_assoc] at hexact herror
  rw [ht.quantized_eq] at herror
  rw [ht.real_eq] at hexact herror
  constructor
  · rw [horder]
    exact ht.isNoise.append (hn₁.append hn₂)
  · rw [horder, horder']
  · rw [hexact]
    exact hl₁
  · rw [herror]
    exact congrArg₂ Vec.sub hl₂ hl₁
  · simp [ht.length_eq]

/-! ## Layers -/

/-- Where the ceiling is not negative, the quantized activation always has a value. -/
theorem quantActivation_relu {c : ℤ} (hc : 0 ≤ c) (xs : List ℚ) :
    FixedPointNetwork.quantActivation (c : ℚ) .relu xs = .ok (xs.map (stair c)) :=
  mapM_ok xs fun x _ => roundClamp_eq (by exact_mod_cast hc) x

/-- One layer takes both passes along. -/
theorem step_tracks {scale : ℚ} {c : ℤ} (hc : 1 ≤ c) {index : Nat} {l : LiftedLayer ℚ}
    (hl : l.Fits) {record : LayerRecord ℚ} (h : t.step scale (c : ℚ) index l = .ok (t', record))
    (ht : t.Tracks noise real quantized) :
    ∃ rest result,
      FixedPointNetwork.quantActivation (c : ℚ) l.activation
        (Vec.add (l.quantWeight.mulVec quantized) l.quantBias) = .ok result ∧
      t'.Tracks (noise ++ rest)
        (l.activation.apply (Vec.add (l.weight.mulVec real) l.bias)) result := by
  obtain ⟨t₁, relaxed, _, ha, hr, _, _⟩ := step_eq_ok h
  have ht₁ := (affineStep_eq_ok ha).tracks hl ht
  cases hact : l.activation with
  | relu =>
    rw [hact] at hr
    obtain ⟨hrelax, hrect⟩ := reluStep_eq_ok hr
    obtain ⟨rest, ht'⟩ := hrect.tracks hc hrelax ht₁
    exact ⟨rest, _, quantActivation_relu (by omega) _, ht'⟩
  | identity =>
    rw [hact] at hr
    cases hr
    refine ⟨[], _, rfl, ?_⟩
    rw [List.append_nil]
    exact ht₁

/-- A run through layers takes both passes along: the noise vector grows at its end. -/
theorem run_tracks {scale : ℚ} {c : ℤ} (hc : 1 ≤ c) {index : Nat} {layers : List (LiftedLayer ℚ)}
    (hl : ∀ l ∈ layers, l.Fits) {records : List (LayerRecord ℚ)}
    (h : t.run scale (c : ℚ) index layers = .ok (t', records))
    (ht : t.Tracks noise real quantized) :
    ∃ rest result, FixedPointNetwork.runQuantized (c : ℚ) layers quantized = .ok result ∧
      t'.Tracks (noise ++ rest) (FixedPointNetwork.runReal layers real) result := by
  induction layers generalizing t index records noise real quantized with
  | nil =>
    cases h
    refine ⟨[], quantized, rfl, ?_⟩
    rw [List.append_nil]
    exact ht
  | cons l layers ih =>
    obtain ⟨t₁, record, tail, hs, hr, rfl⟩ := run_cons_eq_ok.mp h
    obtain ⟨rest₁, result₁, hq, ht₁⟩ := step_tracks hc (hl l (List.mem_cons_self ..)) hs ht
    obtain ⟨rest₂, result, hrun, ht'⟩ := ih (fun k hk => hl k (List.mem_cons_of_mem _ hk)) hr ht₁
    refine ⟨rest₁ ++ rest₂, result, bind_eq_ok.mpr ⟨result₁, hq, hrun⟩, ?_⟩
    rw [← List.append_assoc]
    exact ht'

end QuantEnclosure.Trajectory
