import QuantEnclosure.Proofs.Refusal
import QuantEnclosure.Proofs.Propagation.Truncation

/-!
Why a propagation is refused, in any arithmetic.  The dimension of the region is looked at first,
then the configuration.  After that no shape is refused any more, because the two zonotopes stay
aligned: the input region is refused for its numbers or for too many corners (`start_refusesOnly`),
and a layer only for its numbers (`step_refusesOnly`).  The refusal of a run names the first layer
that cannot be passed (`run_eq_error`), so it is also the refusal of every longer part of the
network, and every shorter part is propagated.
-/

namespace QuantEnclosure

variable {α : Type} [Scalar α]

namespace Trajectory

open AnalysisError (IsInstability layer.injEq)

variable {t : Trajectory α} {dim order : Nat} {scale ceiling : α}

/-! ## One layer -/

theorem affineStep_refusesOnly {l : LiftedLayer α} (hl : l.Fits) (ht : t.Shaped l.inputDim order) :
    RefusesOnly IsInstability (t.affineStep l) := by
  have hh := hl.height_eq
  have hb := hl.bias_eq
  have hq := hl.quantBias_eq
  obtain ⟨exact, hx⟩ := Zonotope.affineMap_ok t.exact ht.exact_dim.symm hb.symm
  unfold affineStep
  rw [ht.ensureAligned_ok, hx]
  refine (refusesOnly_ok ()).bind fun _ _ => ?_
  refine (refusesOnly_ensureDim _ ht.exact_dim.symm).bind fun _ _ => ?_
  refine (Zonotope.ofParts_refusesOnly (by simp [hh, hb, hq])).bind fun error _ => ?_
  exact (refusesOnly_ok exact).bind fun _ _ => refusesOnly_ok _

theorem relax_refusesOnly (ht : t.Shaped dim order) :
    RefusesOnly IsInstability (t.relax ceiling) := by
  obtain ⟨quantized, hq⟩ := Zonotope.sum_ok (ht.exact_dim.trans ht.error_dim.symm)
  unfold relax
  rw [hq]
  refine (refusesOnly_ok quantized).bind fun q _ => ?_
  refine t.exact.finiteHull_refusesOnly.bind fun exactHull _ => ?_
  refine q.finiteHull_refusesOnly.bind fun quantizedHull _ => ?_
  refine (refusesOnly_mapM fun b _ => roundClampRelaxation_refusesOnly b ceiling).bind
    fun staircase _ => ?_
  exact refusesOnly_ok _

theorem reluStep_refusesOnly (ht : t.Shaped dim order) :
    RefusesOnly IsInstability (t.reluStep ceiling) := by
  have hxd := ht.exact_dim
  have hed := ht.error_dim
  unfold reluStep
  rw [ht.ensureAligned_ok]
  refine (refusesOnly_ok ()).bind fun _ _ => ?_
  refine (relax_refusesOnly ht).bind fun r hr => ?_
  obtain ⟨hx, hq⟩ := length_of_relax_ok hr
  refine (Zonotope.rowScaling_refusesOnly (by simp [*])).bind fun fromExact hfx => ?_
  refine (Zonotope.rowScaling_refusesOnly (by simp [*])).bind fun fromError hfe => ?_
  obtain ⟨_, rfl⟩ := Zonotope.rowScaling_eq_ok hfx
  obtain ⟨_, rfl⟩ := Zonotope.rowScaling_eq_ok hfe
  refine (Zonotope.ofParts_refusesOnly (by simp [*])).bind fun e₁ he₁ => ?_
  obtain ⟨c₁, _⟩ := Zonotope.ofParts_eq_ok he₁
  have hd₁ : e₁.dim = dim := by
    rw [← Zonotope.length_center, c₁]
    simp [*]
  refine (Zonotope.appendColumns_refusesOnly (by simp [*])).bind fun e₂ he₂ => ?_
  obtain ⟨_, c₂, _⟩ := Zonotope.appendColumns_eq_ok he₂
  have hd₂ : e₂.dim = dim := by
    rw [← Zonotope.length_center, c₂, Zonotope.length_center, hd₁]
  refine (Zonotope.appendColumns_refusesOnly (by simp [*])).bind fun e₃ _ => ?_
  refine (Zonotope.rowScaling_refusesOnly (by simp [*])).bind fun generators hg => ?_
  obtain ⟨_, rfl⟩ := Zonotope.rowScaling_eq_ok hg
  refine (Zonotope.ofParts_refusesOnly (by simp [*])).bind fun x₁ hx₁ => ?_
  obtain ⟨d₁, _⟩ := Zonotope.ofParts_eq_ok hx₁
  have hd₃ : x₁.dim = dim := by
    rw [← Zonotope.length_center, d₁]
    simp [*]
  refine (Zonotope.appendColumns_refusesOnly (by simp [*])).bind fun x₂ _ => ?_
  exact refusesOnly_ok _

theorem activationStep_refusesOnly (activation : Activation) (ht : t.Shaped dim order) :
    RefusesOnly IsInstability (t.activationStep ceiling activation) := by
  cases activation with
  | relu => exact reluStep_refusesOnly ht
  | identity => exact refusesOnly_ok _

/-- A layer that fits the trajectory is refused only for numbers that are not finite. -/
theorem step_refusesOnly (index : Nat) {l : LiftedLayer α} (hl : l.Fits)
    (ht : t.Shaped l.inputDim order) :
    RefusesOnly IsInstability (t.step scale ceiling index l) := by
  refine (affineStep_refusesOnly hl ht).bind fun t₁ ha => ?_
  have ht₁ := (affineStep_eq_ok ha).shaped hl ht
  refine (activationStep_refusesOnly l.activation ht₁).bind fun p _ => ?_
  exact (Zonotope.hull_refusesOnly _).bind fun bounds _ => refusesOnly_ok _

/-! ## Layers in a row -/

theorem run_cons_eq_error {index : Nat} {l : LiftedLayer α} {rest : List (LiftedLayer α)}
    {f : Failure} :
    t.run scale ceiling index (l :: rest) = .error f ↔
      (∃ g, t.step scale ceiling index l = .error g ∧ f = g.inLayer index l.activation.name) ∨
        ∃ t₁ record, t.step scale ceiling index l = .ok (t₁, record) ∧
          t₁.run scale ceiling (index + 1) rest = .error f := by
  rw [run]
  cases t.step scale ceiling index l with
  | error g => simp [eq_comm]
  | ok p =>
    obtain ⟨t₁, record⟩ := p
    dsimp only
    rw [bind_eq_error]
    constructor
    · rintro (h | ⟨_, _, h⟩)
      · exact Or.inr ⟨t₁, record, rfl, h⟩
      · cases h
    · rintro (⟨g, hg, _⟩ | ⟨t₂, record', h, hr⟩)
      · cases hg
      · cases h
        exact Or.inl hr

/-- A run fails exactly if it passes some first layers and the next one fails; the failure names
that layer. -/
theorem run_eq_error {index : Nat} {layers : List (LiftedLayer α)} {f : Failure} :
    t.run scale ceiling index layers = .error f ↔
      ∃ front l back t₁ records g, layers = front ++ l :: back ∧
        t.run scale ceiling index front = .ok (t₁, records) ∧
        t₁.step scale ceiling (index + front.length) l = .error g ∧
        f = g.inLayer (index + front.length) l.activation.name := by
  induction layers generalizing t index f with
  | nil =>
    constructor
    · intro h
      cases h
    · rintro ⟨front, l, back, _, _, _, h, _⟩
      simp at h
  | cons l layers ih =>
    have hlen : ∀ front : List (LiftedLayer α),
        index + (l :: front).length = index + 1 + front.length := by
      intro front
      rw [List.length_cons]
      omega
    rw [run_cons_eq_error]
    constructor
    · rintro (⟨g, hs, rfl⟩ | ⟨t', record, hs, hr⟩)
      · exact ⟨[], l, layers, t, [], g, rfl, rfl, hs, rfl⟩
      · obtain ⟨front, k, back, t₁, records, g, rfl, hf, hk, rfl⟩ := ih.mp hr
        refine ⟨l :: front, k, back, t₁, record :: records, g, rfl,
          run_cons_eq_ok.mpr ⟨t', record, records, hs, hf, rfl⟩, ?_, ?_⟩
        · rw [hlen]
          exact hk
        · rw [hlen]
    · rintro ⟨front, k, back, t₁, records, g, h, hf, hk, rfl⟩
      cases front with
      | nil =>
        cases h
        cases hf
        exact Or.inl ⟨g, hk, rfl⟩
      | cons l' front =>
        cases h
        obtain ⟨t', record, tail, hs, hr, rfl⟩ := run_cons_eq_ok.mp hf
        rw [hlen] at hk ⊢
        exact Or.inr ⟨t', record, hs, ih.mpr ⟨front, k, back, t₁, tail, g, rfl, hr, hk, rfl⟩⟩

/-- The layers before the one that fails are passed, and every longer part of the layers fails in
the same way. -/
theorem run_take_of_error {index : Nat} {front : List (LiftedLayer α)} {l : LiftedLayer α}
    {t₁ : Trajectory α} {records : List (LayerRecord α)} {g : Failure}
    (hf : t.run scale ceiling index front = .ok (t₁, records))
    (hs : t₁.step scale ceiling (index + front.length) l = .error g)
    (back : List (LiftedLayer α)) (k : Nat) :
    (k ≤ front.length → ∃ p, t.run scale ceiling index ((front ++ l :: back).take k) = .ok p) ∧
      (front.length < k → t.run scale ceiling index ((front ++ l :: back).take k) =
        .error (g.inLayer (index + front.length) l.activation.name)) := by
  constructor
  · intro hk
    rw [List.take_append_of_le_length hk]
    rw [← List.take_append_drop k front] at hf
    obtain ⟨t₂, head, _, hhead, _, _⟩ := run_append_eq_ok.mp hf
    exact ⟨_, hhead⟩
  · intro hk
    have htake : (front ++ l :: back).take k = front ++ l :: back.take (k - front.length - 1) := by
      rw [List.take_append, List.take_of_length_le (by omega)]
      obtain ⟨d, hd⟩ : ∃ d, k - front.length = d + 1 := ⟨k - front.length - 1, by omega⟩
      rw [hd, List.take_succ_cons, Nat.add_sub_cancel]
    rw [htake]
    exact run_eq_error.mpr ⟨front, l, _, t₁, records, g, rfl, hf, hs, rfl⟩

/-- Layers that fit in a row are refused only for numbers that are not finite, in one layer. -/
theorem run_refusesOnly (index : Nat) {layers : List (LiftedLayer α)} (hl : Chained dim layers)
    (ht : t.Shaped dim order) :
    RefusesOnly (fun e => ∃ i name source, IsInstability source ∧ e = .layer i name source)
      (t.run scale ceiling index layers) := by
  induction layers generalizing t index dim order with
  | nil => exact refusesOnly_ok _
  | cons l rest ih =>
    obtain ⟨rfl, hfits, hrest⟩ := hl
    intro e h
    rcases run_cons_eq_error.mp h with ⟨g, hs, he⟩ | ⟨t₁, record, hs, hr⟩
    · cases g with
      | violated c => cases he
      | refused source =>
        cases he
        exact ⟨_, _, source, step_refusesOnly index hfits ht source hs, rfl⟩
    · exact ih (index + 1) hrest (step_shaped hfits hs ht) e hr

/-- The refusal of layers that fit in a row names the first one that is refused, for numbers that
are not finite: fewer layers are passed, and more layers are refused in the same way. -/
theorem run_refused {index : Nat} {layers : List (LiftedLayer α)} (hl : Chained dim layers)
    (ht : t.Shaped dim order) {e : AnalysisError}
    (h : t.run scale ceiling index layers = .error (.refused e)) :
    ∃ (i : Nat) (hi : i < layers.length) (reason : String),
      e = .layer (index + i) layers[i].activation.name (.numericalInstability reason) ∧
      ∀ k, (k ≤ i → ∃ p, t.run scale ceiling index (layers.take k) = .ok p) ∧
        (i < k → t.run scale ceiling index (layers.take k) = .error (.refused e)) := by
  obtain ⟨front, l, back, t₁, records, g, rfl, hf, hs, he⟩ := run_eq_error.mp h
  obtain ⟨_, _, source, ⟨reason, rfl⟩, he'⟩ := run_refusesOnly index hl ht e h
  have htake := run_take_of_error hf hs back
  rw [← he] at htake
  refine ⟨front.length, by simp, reason, ?_, htake⟩
  cases g with
  | violated c => cases he
  | refused source =>
    rw [Failure.inLayer, Failure.refused.injEq] at he
    rw [he, layer.injEq] at he'
    rw [he, he'.2.2]
    simp

/-! ## The input region -/

theorem inputErrors_refusesOnly {P : AnalysisError → Prop} (f : Format) (hs qs : List (Bound α))
    (rs ss : List α) : RefusesOnly P (inputErrors f hs qs rs ss) := by
  rw [inputErrors_eq_mapM]
  refine refusesOnly_mapM fun p _ => ?_
  unfold inputError
  split
  · exact refusesOnly_ok _
  · exact (f.errorRange_refusesOnly p.1.1).bind fun _ _ => refusesOnly_ok _

/-- What `start` passes to `inputErrors` has one entry for each coordinate of the region. -/
theorem start_lengths {f : Format} {region quantized : Zonotope α} {method used : RegionMethod}
    {limit : Nat} {hull quantizedHull : List (Bound α)} (hh : region.finiteHull = .ok hull)
    (hp : f.quantizeRegion region method limit = .ok (quantized, used))
    (hq : quantized.hull = .ok quantizedHull) :
    hull.length = region.dim ∧ quantizedHull.length = region.dim ∧
      region.radii.length = region.dim ∧ quantized.radii.length = region.dim := by
  have hdim := Format.dim_of_quantizeRegion_ok hp
  refine ⟨?_, ?_, Zonotope.length_radii region, ?_⟩
  · exact Zonotope.length_of_hull_ok (Zonotope.hull_of_finiteHull_ok hh)
  · rw [Zonotope.length_of_hull_ok hq, hdim]
  · rw [Zonotope.length_radii, hdim]

/-- A region is refused for numbers that are not finite or for too many corners. -/
theorem start_refusesOnly (cfg : EngineConfig) (f : Format) (region : Zonotope α) :
    RefusesOnly (Format.RefusesRegion region.dim cfg.vertexLimit) (start cfg f region) := by
  have unstable : ∀ e : AnalysisError, e.IsInstability →
      Format.RefusesRegion region.dim cfg.vertexLimit e := fun _ => Or.inl
  refine (region.finiteHull_refusesOnly.mono unstable).bind fun hull hh => ?_
  refine (f.quantizeRegion_refusesOnly region cfg.method cfg.vertexLimit).bind fun p hp => ?_
  obtain ⟨quantized, method⟩ := p
  refine quantized.hull_refusesOnly.bind fun quantizedHull hq => ?_
  refine (inputErrors_refusesOnly f _ _ _ _).bind fun errors he => ?_
  obtain ⟨hhull, hquant, hradii, hquantRadii⟩ := start_lengths hh hp hq
  have hdim := Format.dim_of_quantizeRegion_ok hp
  have hlen := length_of_inputErrors_ok he (by omega) (by omega) (by omega)
  rw [hhull] at hlen
  refine (Zonotope.rowScaling_refusesOnly (by simp [hlen])).bind fun linear hl => ?_
  obtain ⟨_, rfl⟩ := Zonotope.rowScaling_eq_ok hl
  refine ((Zonotope.ofParts_refusesOnly (by simp [hlen, hdim])).mono unstable).bind
    fun e₁ he₁ => ?_
  obtain ⟨c₁, _⟩ := Zonotope.ofParts_eq_ok he₁
  have hd₁ : e₁.dim = region.dim := by
    rw [← Zonotope.length_center, c₁]
    simp [hdim]
  refine (Zonotope.appendColumns_refusesOnly (by simp [hlen, hd₁])).bind fun e₂ _ => ?_
  exact refusesOnly_ok _

end Trajectory

/-! ## The whole propagation -/

section

variable {cfg : EngineConfig} {n : Network α} {c : Config} {region : Zonotope α}

/-- A region of another dimension is refused before the configuration is looked at. -/
theorem propagate_of_dim_ne (h : n.inputDim ≠ region.dim) :
    propagate cfg n c region =
      .error (.refused (.shapeMismatch "input region" [n.inputDim] [region.dim])) := by
  unfold propagate
  rw [ensureDim_of_ne _ h]
  rfl

/-- A configuration that does not validate fails as its validation does. -/
theorem propagate_of_validate_error (hd : n.inputDim = region.dim) {g : Failure}
    (hv : c.validate = .error g) : propagate cfg n c region = .error g := by
  have hf : n.fixedPoint c = .error g := bind_eq_error.mpr (Or.inl hv)
  unfold propagate
  rw [ensureDim_of_eq _ hd, hf]
  rfl

/-- A valid configuration does not refuse to lift a network. -/
theorem fixedPoint_refusesOnly {P : AnalysisError → Prop} (hv : c.validate = .ok ()) :
    RefusesOnly P (n.fixedPoint c) := by
  unfold Network.fixedPoint
  rw [hv]
  refine (refusesOnly_ok ()).bind fun _ _ => ?_
  refine c.weights.quantizer_refusesOnly.bind fun _ _ => ?_
  exact c.biases.quantizer_refusesOnly.bind fun _ _ => refusesOnly_ok _

/-- After a valid configuration, a refusal comes from the region or from a layer. -/
theorem refused_of_validate_ok {e : AnalysisError} (hd : n.inputDim = region.dim)
    (hv : c.validate = .ok ()) (h : propagate cfg n c region = .error (.refused e)) :
    Trajectory.start cfg c.input region = .error (.refused e) ∨
      ∃ fixed start method, n.fixedPoint c = .ok fixed ∧
        Trajectory.start cfg fixed.input region = .ok (start, method) ∧
        start.run fixed.scale fixed.ceiling 0 fixed.layers = .error (.refused e) := by
  unfold propagate at h
  rw [ensureDim_of_eq _ hd] at h
  rcases bind_eq_error.mp h with h | ⟨_, _, h⟩
  · cases h
  rcases bind_eq_error.mp h with h | ⟨fixed, hf, h⟩
  · exact (fixedPoint_refusesOnly (P := fun _ => False) hv e h).elim
  obtain ⟨_, _, _, _, _, hfixed⟩ := fixedPoint_eq_ok hf
  rcases bind_eq_error.mp h with h | ⟨⟨start, method⟩, hs, h⟩
  · left
    rw [hfixed] at h
    exact h
  right
  rcases bind_eq_error.mp h with h | ⟨_, _, h⟩
  · exact ⟨fixed, start, method, hf, hs, h⟩
  · cases h

/-- A refusal of the layers names the first layer that cannot be passed, in every network that
starts with the same layers. -/
theorem refused_layer {fixed : FixedPointNetwork α} {start : Trajectory α} {method : RegionMethod}
    {e : AnalysisError} (hd : n.inputDim = region.dim) (hf : n.fixedPoint c = .ok fixed)
    (hs : Trajectory.start cfg fixed.input region = .ok (start, method))
    (hr : start.run fixed.scale fixed.ceiling 0 fixed.layers = .error (.refused e)) :
    ∃ (i : Nat) (hi : i < n.layers.length) (reason : String),
      e = .layer i n.layers[i].activation.name (.numericalInstability reason) ∧
      ∀ k : Nat, 0 < k →
        ∃ front : Network α, Network.ofLayers (n.layers.take k) = .ok front ∧
          (k ≤ i → ∃ a, propagate cfg front c region = .ok a) ∧
          (i < k → propagate cfg front c region = .error (.refused e)) := by
  obtain ⟨quantWeight, quantBias, _, _, _, hfixed⟩ := fixedPoint_eq_ok hf
  have hlayers : fixed.layers = liftLayers c.scale quantWeight quantBias n.layers := by
    rw [hfixed]
  have hchained := chained_liftLayers c.scale quantWeight quantBias n
  rw [hd, ← hlayers] at hchained
  obtain ⟨i, hi, reason, he, htake⟩ :=
    Trajectory.run_refused hchained (Trajectory.start_shaped hs) hr
  have hin : i < n.layers.length := by simpa [hlayers] using hi
  refine ⟨i, hin, reason, ?_, ?_⟩
  · have hact := (getElem_liftLayers c.scale quantWeight quantBias n.layers i
      (by simpa using hin) hin).1
    rw [he, Nat.zero_add, ← hact]
    simp only [hlayers]
  · intro k hk
    have hfront := propagate_eq_map_run ((n.inputDim_truncate k hk).trans hd)
      (fixedPoint_truncate hf k hk) hs
    refine ⟨n.truncate k hk, Network.ofLayers_layers (n.truncate k hk), ?_, ?_⟩
    · intro hki
      obtain ⟨p, hp⟩ := (htake k).1 hki
      rw [hfront, hp]
      exact ⟨_, rfl⟩
    · intro hik
      rw [hfront, (htake k).2 hik]
      rfl

end

/-- A propagation is refused, in this order, for the dimension of the region, for the
configuration, for the region itself or for a layer whose numbers are not finite.  No later
check of a shape fails.  The layer is the first one that cannot be passed: the network of the first
`k` layers is propagated if that layer is not among them, and refused in the same way if it is. -/
theorem propagate_refused (cfg : EngineConfig) (n : Network α) (c : Config) (region : Zonotope α)
    (e : AnalysisError) (h : propagate cfg n c region = .error (.refused e)) :
    (n.inputDim ≠ region.dim → e = .shapeMismatch "input region" [n.inputDim] [region.dim]) ∧
    (n.inputDim = region.dim → c.validate ≠ .ok () →
      c.validate = .error (.refused e) ∧ ∃ reason, e = .invalidConfig reason) ∧
    (n.inputDim = region.dim → c.validate = .ok () →
      (Trajectory.start cfg c.input region = .error (.refused e) ∧
        ((∃ reason, e = .numericalInstability reason) ∨
          e = .dimensionLimit region.dim cfg.vertexLimit)) ∨
      ∃ (i : Nat) (hi : i < n.layers.length) (reason : String),
        e = .layer i n.layers[i].activation.name (.numericalInstability reason) ∧
        (∃ start, Trajectory.start cfg c.input region = .ok start) ∧
        ∀ k : Nat, 0 < k → k ≤ n.layers.length →
          ∃ front : Network α, Network.ofLayers (n.layers.take k) = .ok front ∧
            (k ≤ i → ∃ a, propagate cfg front c region = .ok a) ∧
            (i < k → propagate cfg front c region = .error (.refused e))) := by
  refine ⟨?_, ?_, ?_⟩
  · intro hd
    rw [propagate_of_dim_ne hd] at h
    cases h
    rfl
  · intro hd hv
    cases hval : c.validate with
    | ok u => exact absurd hval hv
    | error g =>
      rw [propagate_of_validate_error hd hval] at h
      cases h
      exact ⟨rfl, c.validate_refusesOnly e hval⟩
  · intro hd hv
    rcases refused_of_validate_ok hd hv h with hs | ⟨fixed, start, method, hf, hs, hr⟩
    · exact Or.inl ⟨hs, Trajectory.start_refusesOnly cfg c.input region e hs⟩
    · right
      obtain ⟨i, hi, reason, he, htake⟩ := refused_layer hd hf hs hr
      obtain ⟨_, _, _, _, _, hfixed⟩ := fixedPoint_eq_ok hf
      have hstart : Trajectory.start cfg c.input region = .ok (start, method) := by
        rw [hfixed] at hs
        exact hs
      exact ⟨i, hi, reason, he, ⟨_, hstart⟩, fun k hk _ => htake k hk⟩

/-! ## A network that overflows -/

/-- Rational numbers of which those from a thousand on count as not finite. -/
def Capped : Type := ℚ

instance : Scalar Capped :=
  show Scalar ℚ from { Scalar.exact with isFinite := fun x => decide (|x| < 1000) }

def Capped.of (x : ℚ) : Capped := x

/-- The second layer multiplies by a hundred, so that its lifted numbers overflow. -/
def steepNetwork : Network Capped where
  layers :=
    [{ weight := ⟨1, [[Capped.of 1]], by decide⟩
       bias := [Capped.of 0]
       activation := .relu
       bias_length := rfl
       finite := by decide +kernel },
     { weight := ⟨1, [[Capped.of 100]], by decide⟩
       bias := [Capped.of 0]
       activation := .identity
       bias_length := rfl
       finite := by decide +kernel }]
  nonempty := List.cons_ne_nil _ _
  linked := ⟨rfl, trivial⟩

def steepRegion : Zonotope Capped where
  center := [Capped.of (1 / 4)]
  generators := ⟨1, [[Capped.of (1 / 4)]], by decide⟩
  height_eq := rfl

/-- The second layer is refused, and the network without it is propagated. -/
theorem steepNetwork_refused :
    propagate .standard steepNetwork .standard steepRegion =
        .error (.refused (.layer 1 "Identity"
          (.numericalInstability "zonotope has non-finite center or generator entries"))) ∧
      ∃ front a, Network.ofLayers (steepNetwork.layers.take 1) = .ok front ∧
        propagate .standard front .standard steepRegion = .ok a := by
  have h : propagate .standard steepNetwork .standard steepRegion =
      .error (.refused (.layer 1 "Identity"
        (.numericalInstability "zonotope has non-finite center or generator entries"))) := by
    decide +kernel
  refine ⟨h, ?_⟩
  have hrefused := propagate_refused .standard steepNetwork .standard steepRegion _ h
  rcases hrefused.2.2 rfl rfl with ⟨_, ⟨_, he⟩ | he⟩ | ⟨i, hi, _, he, _, htake⟩
  · cases he
  · cases he
  · injection he with hindex
    subst hindex
    obtain ⟨front, hfront, hok, _⟩ := htake 1 (by decide) (by decide)
    obtain ⟨a, ha⟩ := hok (le_refl 1)
    exact ⟨front, a, hfront, ha⟩

end QuantEnclosure
