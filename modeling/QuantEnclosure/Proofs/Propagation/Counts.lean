import Mathlib.Data.Set.Card
import QuantEnclosure.Proofs.Propagation.Input
import QuantEnclosure.Proofs.Propagation.Truncation

/-!
What the counts of a trace say about the two passes, in exact arithmetic.  The record of a rectifier
layer counts intervals: those of the real trajectory that reach below and above zero, and those of
the quantized trajectory that lie up to zero or from the ceiling on (`step_counts`).  The intervals
hold what the neurons of the layer get at every point of the region (`propagate_layer_encloses`).
So every neuron that sees both signs is counted as unstable, and the neurons that are counted as
zero or as saturated have that activation at every point.
-/

namespace QuantEnclosure

open Scalar

/-! ## The neurons of a layer -/

/-- What the activation of layer `k` gets in the real pass from `x`. -/
def Network.preActivation (n : Network ℚ) (k : Nat) (x : List ℚ) : List ℚ :=
  match n.layers[k]? with
  | none => []
  | some l => l.affine ((n.layers.take k).foldl (fun a l => l.apply a) x)

/-- What layer `k` gives in the quantized pass from `x`, in the integer domain. -/
def FixedPointNetwork.activationAt (n : FixedPointNetwork ℚ) (k : Nat) (x : List ℚ) :
    Outcome (List ℚ) := do
  let a ← n.input.quantizeVec x
  runQuantized n.ceiling (n.layers.take (k + 1)) a

/-- Neuron `i` of layer `k` sees a positive number at one point of the region and a negative one at
another. -/
def Network.SeesBothSigns (n : Network ℚ) (region : Zonotope ℚ) (k i : Nat) : Prop :=
  (∃ x ∈ region, ∃ v, (n.preActivation k x)[i]? = some v ∧ 0 < v) ∧
    ∃ x ∈ region, ∃ v, (n.preActivation k x)[i]? = some v ∧ v < 0

/-- Neuron `i` of layer `k` has the quantized activation `v` at every point of the region. -/
def FixedPointNetwork.IsConstant (n : FixedPointNetwork ℚ) (region : Zonotope ℚ) (k i : Nat)
    (v : ℚ) : Prop :=
  ∀ x ∈ region, ∃ y, n.activationAt k x = .ok y ∧ y[i]? = some v

/-! ## Counting positions -/

def positions {β : Type} (p : β → Prop) (xs : List β) : Set Nat := {i | ∃ b, xs[i]? = some b ∧ p b}

theorem finite_positions {β : Type} (p : β → Prop) (xs : List β) : (positions p xs).Finite := by
  apply (Set.finite_lt_nat xs.length).subset
  rintro i ⟨b, hb, _⟩
  exact (List.getElem?_eq_some_iff.mp hb).1

/-- There are as many positions as `countP` says. -/
theorem ncard_positions {β : Type} (p : β → Prop) [DecidablePred p] (xs : List β) :
    (positions p xs).ncard = xs.countP p := by
  induction xs with
  | nil => simp [positions]
  | cons x xs ih =>
    have hsucc : (Nat.succ '' positions p xs).ncard = xs.countP p := by
      rw [Set.ncard_image_of_injective _ Nat.succ_injective, ih]
    by_cases hp : p x
    · have hset : positions p (x :: xs) = insert 0 (Nat.succ '' positions p xs) := by
        ext i
        cases i <;> simp [positions, hp]
      have hzero : 0 ∉ Nat.succ '' positions p xs := by simp
      rw [hset, Set.ncard_insert_of_notMem hzero ((finite_positions p xs).image _), hsucc]
      simp [hp]
    · have hset : positions p (x :: xs) = Nat.succ '' positions p xs := by
        ext i
        cases i <;> simp [positions, hp]
      rw [hset, hsucc]
      simp [hp]

theorem Forall₂.exists_getElem? {β γ : Type} {R : β → γ → Prop} {xs : List β} {ys : List γ}
    (h : List.Forall₂ R xs ys) {i : Nat} {a : β} (ha : xs[i]? = some a) :
    ∃ b, ys[i]? = some b ∧ R a b := by
  obtain ⟨hi, rfl⟩ := List.getElem?_eq_some_iff.mp ha
  have hj : i < ys.length := h.length_eq ▸ hi
  exact ⟨ys[i], List.getElem?_eq_getElem hj, h.get hi hj⟩

/-! ## One layer -/

namespace Trajectory

/-- The counts of a record are those of the given intervals. -/
structure CountsOf (record : LayerRecord ℚ) (ceiling : ℚ)
    (exactHull quantizedHull : List (Bound ℚ)) : Prop where
  unstable_eq : record.unstable = exactHull.countP fun b => b.lower < 0 ∧ 0 < b.upper
  zero_eq : record.cases[0]? = some (quantizedHull.countP fun b => b.upper ≤ 0)
  saturated_eq : record.cases[1]? =
    some (quantizedHull.countP fun b => 0 < b.upper ∧ ceiling ≤ b.lower)

/-- A case occurs as often as there are intervals to which it belongs. -/
theorem countCases_of_hull {ceiling : ℚ} (hull : List (Bound ℚ)) (k : RoundClampCase)
    (p : Bound ℚ → Prop) [DecidablePred p]
    (hp : ∀ b, (roundClampFormula b ceiling).2 = k ↔ p b) :
    (countCases (hull.map fun b => (roundClampFormula b ceiling).2))[k.index]? =
      some (hull.countP p) := by
  have hcount : (countCases (hull.map fun b => (roundClampFormula b ceiling).2))[k.index]? =
      some ((hull.map fun b => (roundClampFormula b ceiling).2).count k) := by
    cases k <;> rfl
  rw [hcount, List.count_eq_countP, List.countP_map]
  apply congrArg some
  apply List.countP_congr
  intro b _
  simp [hp]

variable {t t' : Trajectory ℚ} {c : ℤ} {scale : ℚ}

/-- The record of a rectifier layer counts intervals that hold what its neurons get, in every two
passes that are tracked. -/
theorem step_counts (hc : 1 ≤ c) {index : Nat} {l : LiftedLayer ℚ} (hl : l.Fits)
    (hrelu : l.activation = .relu) {record : LayerRecord ℚ}
    (h : t.step scale (c : ℚ) index l = .ok (t', record)) :
    ∃ exactHull quantizedHull : List (Bound ℚ), quantizedHull.length = l.outputDim ∧
      CountsOf record c exactHull quantizedHull ∧
      ∀ {noise real quantized : List ℚ}, t.Tracks noise real quantized →
        List.Forall₂ (· ∈ ·) (Vec.add (l.weight.mulVec real) l.bias) exactHull ∧
        List.Forall₂ (· ∈ ·) (Vec.add (l.quantWeight.mulVec quantized) l.quantBias)
          quantizedHull := by
  obtain ⟨t₁, relaxed, _, ha, hr, _, rfl⟩ := step_eq_ok h
  rw [hrelu] at hr
  have hrelax := (reluStep_eq_ok hr).1
  have himage := affineStep_eq_ok ha
  have hdim : t₁.exact.dim = l.outputDim := by
    rw [← Zonotope.height_generators, himage.exact_generators, Matrix.height_mul]
    rfl
  have hlen := (length_of_relax_ok hrelax).2
  obtain ⟨exactHull, quantizedHull, rfl, hmem⟩ := relax_encloses hc hrelax
  rw [List.length_map, hdim] at hlen
  refine ⟨exactHull, quantizedHull, hlen, ?_, fun ht => hmem (himage.tracks hl ht)⟩
  simp only [List.map_map, Function.comp_def]
  constructor
  · rw [List.countP_map]
    apply List.countP_congr
    intro b _
    simp [reluRelaxation_unstable_iff]
  · exact countCases_of_hull _ .zero _ fun _ => roundClampFormula_zero_iff
  · exact countCases_of_hull _ .saturated _ fun _ => roundClampFormula_saturated_iff

/-! ## The layers of a run -/

/-- A run passes the layers before position `k`, and then that layer, whose record it keeps. -/
theorem run_layer_eq_ok {α : Type} [Scalar α] {t t' : Trajectory α} {scale ceiling : α}
    {index : Nat} {layers : List (LiftedLayer α)} {records : List (LayerRecord α)}
    (h : t.run scale ceiling index layers = .ok (t', records)) (k : Nat) (hk : k < layers.length) :
    ∃ t₁ head t₂ record, t.run scale ceiling index (layers.take k) = .ok (t₁, head) ∧
      t₁.step scale ceiling (index + k) layers[k] = .ok (t₂, record) ∧
      records[k]? = some record := by
  rw [← List.take_append_drop k layers, List.drop_eq_getElem_cons hk] at h
  obtain ⟨t₁, head, _, hfront, hback, rfl⟩ := run_append_eq_ok.mp h
  obtain ⟨t₂, record, tail, hstep, _, rfl⟩ := run_cons_eq_ok.mp hback
  have hlen : (layers.take k).length = k := by
    rw [List.length_take]
    omega
  rw [hlen] at hstep
  refine ⟨t₁, head, t₂, record, hfront, hstep, ?_⟩
  have hhead : head.length = k := (length_of_run_ok hfront).trans hlen
  rw [← hhead, List.getElem?_append_right le_rfl, Nat.sub_self, List.getElem?_cons_zero]

end Trajectory

theorem runQuantized_append (ceiling : ℚ) (front back : List (LiftedLayer ℚ)) (a : List ℚ) :
    FixedPointNetwork.runQuantized ceiling (front ++ back) a =
      FixedPointNetwork.runQuantized ceiling front a >>=
        FixedPointNetwork.runQuantized ceiling back := by
  induction front generalizing a with
  | nil => rfl
  | cons l front ih =>
    simp only [List.cons_append, FixedPointNetwork.runQuantized, bind_assoc, ih]

/-- A rectifier layer gives the stairs of what it gets from the quantized pass before it. -/
theorem activationAt_relu {fixed : FixedPointNetwork ℚ} {c : ℤ} (hc : 0 ≤ c)
    (hceiling : fixed.ceiling = c) {k : Nat} (hk : k < fixed.layers.length)
    (hrelu : fixed.layers[k].activation = .relu) {x a result : List ℚ}
    (hinput : fixed.input.quantizeVec x = .ok a)
    (h : FixedPointNetwork.runQuantized (c : ℚ) (fixed.layers.take k) a = .ok result) :
    fixed.activationAt k x = .ok ((Vec.add (fixed.layers[k].quantWeight.mulVec result)
      fixed.layers[k].quantBias).map (stair c)) := by
  refine bind_eq_ok.mpr ⟨a, hinput, ?_⟩
  rw [hceiling, List.take_add_one, List.getElem?_eq_getElem hk, Option.toList_some,
    runQuantized_append]
  refine bind_eq_ok.mpr ⟨result, h, ?_⟩
  rw [FixedPointNetwork.runQuantized, hrelu]
  exact bind_eq_ok.mpr ⟨_, Trajectory.quantActivation_relu hc _, rfl⟩

/-! ## The counts of a trace -/

/-- The record of a rectifier layer counts intervals that hold, at every point of the region, the
lifted real and the quantized numbers that the neurons of the layer get. -/
theorem propagate_layer_encloses {cfg : EngineConfig} {n : Network ℚ} {c : Config}
    {region : Zonotope ℚ} {a : Analysis ℚ} (h : propagate cfg n c region = .ok a) {k : Nat}
    {l : Layer ℚ} (hk : n.layers[k]? = some l) (hrelu : l.activation = .relu) :
    ∃ (fixed : FixedPointNetwork ℚ) (ceiling : ℤ) (record : LayerRecord ℚ)
        (exactHull quantizedHull : List (Bound ℚ)),
      n.fixedPoint c = .ok fixed ∧ fixed.ceiling = ceiling ∧ 0 ≤ ceiling ∧ 0 < fixed.scale ∧
      a.trace[k]? = some record ∧ quantizedHull.length = l.outputDim ∧
      Trajectory.CountsOf record ceiling exactHull quantizedHull ∧
      ∀ x ∈ region,
        List.Forall₂ (fun v b => v * fixed.scale ∈ b) (n.preActivation k x) exactHull ∧
        ∃ pre, fixed.activationAt k x = .ok (pre.map (stair ceiling)) ∧
          List.Forall₂ (· ∈ ·) pre quantizedHull := by
  obtain ⟨hd, fixed, start, method, t, trace, hf, hs, hr, rfl⟩ := propagate_eq_ok.mp h
  obtain ⟨_, _, hv, _, _, _⟩ := fixedPoint_eq_ok hf
  have hfixed := fixedPoint_ok n hv
  rw [hfixed] at hf
  cases hf
  have hc := Config.validate_eq_ok.mp hv
  obtain ⟨ceiling, hceiling, hone⟩ := Config.exists_ceiling_eq hc
  obtain ⟨hlt, rfl⟩ := List.getElem?_eq_some_iff.mp hk
  have hkl : k < (liftLayers c.scale c.weights.rounded c.biases.rounded n.layers).length := by
    simpa using hlt
  have hfits : ∀ l ∈ liftLayers c.scale c.weights.rounded c.biases.rounded n.layers, l.Fits :=
    fits_of_mem_liftLayers _ _ _
  dsimp only at hs hr
  rw [hceiling] at hr
  obtain ⟨t₁, head, t₂, record, hfront, hstep, hrecord⟩ := Trajectory.run_layer_eq_ok hr k hkl
  obtain ⟨hact, _, hout⟩ :=
    getElem_liftLayers c.scale c.weights.rounded c.biases.rounded n.layers k hkl hlt
  obtain ⟨exactHull, quantizedHull, hlen, hcounts, hmem⟩ :=
    Trajectory.step_counts hone (hfits _ (List.getElem_mem hkl)) (hact.trans hrelu) hstep
  refine ⟨_, ceiling, record, exactHull, quantizedHull, hfixed, hceiling, by omega, c.scale_pos,
    hrecord, hlen.trans hout, hcounts, ?_⟩
  intro x hx
  obtain ⟨noise, hn, rfl⟩ := Zonotope.mem_iff_exists_value.mp hx
  obtain ⟨first, hstart⟩ := Trajectory.start_tracks hc.input hs hn
  obtain ⟨rest, result, hrun, htracks⟩ := Trajectory.run_tracks hone
    (fun l hl => hfits l (List.mem_of_mem_take hl)) hfront hstart
  obtain ⟨hreal, hquant⟩ := hmem htracks
  constructor
  · rw [affine_liftLayers _ _ c.scale_pos.le n.layers k hkl hlt, Vec.scale,
      List.forall₂_map_left_iff] at hreal
    simpa [Network.preActivation, List.getElem?_eq_getElem hlt] using hreal
  · exact ⟨_, activationAt_relu (by omega) hceiling hkl (hact.trans hrelu)
      (Format.quantizeVec_eq hc.input _) hrun, hquant⟩

/-- Positions of intervals on which the staircase is `v` are neurons whose activation is `v` all
over the region. -/
theorem countP_le_ncard_isConstant {fixed : FixedPointNetwork ℚ} {region : Zonotope ℚ}
    {k width : Nat} {ceiling v : ℚ} {hull : List (Bound ℚ)} (hlen : hull.length = width)
    (hmem : ∀ x ∈ region, ∃ pre, fixed.activationAt k x = .ok (pre.map (stair ceiling)) ∧
      List.Forall₂ (· ∈ ·) pre hull)
    {p : Bound ℚ → Prop} [DecidablePred p] (hp : ∀ b, p b → ∀ y ∈ b, stair ceiling y = v) :
    hull.countP p ≤ {i | i < width ∧ fixed.IsConstant region k i v}.ncard := by
  rw [← ncard_positions]
  have hfinite : {i | i < width ∧ fixed.IsConstant region k i v}.Finite :=
    (Set.finite_lt_nat width).subset fun i hi => hi.1
  apply Set.ncard_le_ncard _ hfinite
  rintro i ⟨b, hb, hpb⟩
  refine ⟨hlen ▸ (List.getElem?_eq_some_iff.mp hb).1, fun x hx => ?_⟩
  obtain ⟨pre, hy, hpre⟩ := hmem x hx
  obtain ⟨y, hyi, hyb⟩ := Forall₂.exists_getElem? hpre.flip hb
  exact ⟨_, hy, by rw [List.getElem?_map, hyi, Option.map_some, hp b hpb y hyb]⟩

/-- The counts of a rectifier layer say something about every point of the region: at most
`unstable` neurons see both signs before their activation, at least as many as the first case
counts have the quantized activation zero everywhere, and at least as many as the second counts have
the ceiling everywhere. -/
theorem trace_counts_sound (cfg : EngineConfig) (n : Network ℚ) (c : Config)
    (region : Zonotope ℚ) (a : Analysis ℚ) (h : propagate cfg n c region = .ok a) (k : Nat)
    (l : Layer ℚ) (hk : n.layers[k]? = some l) (hrelu : l.activation = .relu) :
    ∃ (fixed : FixedPointNetwork ℚ) (record : LayerRecord ℚ) (zeros saturated : Nat),
      n.fixedPoint c = .ok fixed ∧ a.trace[k]? = some record ∧
      record.cases[0]? = some zeros ∧ record.cases[1]? = some saturated ∧
      {i | i < l.outputDim ∧ n.SeesBothSigns region k i}.ncard ≤ record.unstable ∧
      zeros ≤ {i | i < l.outputDim ∧ fixed.IsConstant region k i 0}.ncard ∧
      saturated ≤ {i | i < l.outputDim ∧ fixed.IsConstant region k i fixed.ceiling}.ncard := by
  obtain ⟨fixed, ceiling, record, exactHull, quantizedHull, hf, hceiling, hnonneg, hscale, hrecord,
    hlen, hcounts, hmem⟩ := propagate_layer_encloses h hk hrelu
  have hquant := fun x hx => (hmem x hx).2
  refine ⟨fixed, record, _, _, hf, hrecord, hcounts.zero_eq, hcounts.saturated_eq, ?_, ?_, ?_⟩
  · rw [hcounts.unstable_eq, ← ncard_positions]
    apply Set.ncard_le_ncard _ (finite_positions _ _)
    rintro i ⟨_, ⟨x, hx, v, hv, hpos⟩, x', hx', v', hv', hneg⟩
    obtain ⟨b, hb, hvb⟩ := Forall₂.exists_getElem? (hmem x hx).1 hv
    obtain ⟨b', hb', hvb'⟩ := Forall₂.exists_getElem? (hmem x' hx').1 hv'
    obtain rfl := Option.some.inj (hb.symm.trans hb')
    refine ⟨b, hb, ?_, ?_⟩
    · exact hvb'.1.trans_lt (mul_neg_of_neg_of_pos hneg hscale)
    · exact (mul_pos hpos hscale).trans_le hvb.2
  · exact countP_le_ncard_isConstant hlen hquant fun b hb y hy =>
      stair_of_nonpos hnonneg (hy.2.trans hb)
  · rw [hceiling]
    exact countP_le_ncard_isConstant hlen hquant fun b hb y hy =>
      stair_of_ceiling_le hnonneg (hb.2.trans hy.1)

/-- Over `clampedRegion` the first neuron sees both signs, the second stays below zero, and the
third stays above the ceiling of `clampedConfig`. -/
def clampedNetwork : Network ℚ where
  layers :=
    [{ weight := ⟨1, [[1], [1], [1]], by decide⟩
       bias := [0, -1, 8]
       activation := .relu
       bias_length := rfl
       finite := rfl }]
  nonempty := List.cons_ne_nil _ _
  linked := trivial

/-- Two fractional bits everywhere, and the ceiling `15`. -/
def clampedConfig : Config where
  input := ⟨.symmetric, 4, 2⟩
  weights := ⟨.symmetric, 4, 2⟩
  biases := ⟨.symmetric, 8, 2⟩
  activations := ⟨.positiveOnly, 4, 2⟩

def clampedRegion : Zonotope ℚ where
  center := [0]
  generators := ⟨1, [[1 / 4]], by decide⟩
  height_eq := rfl

theorem clampedNetwork_propagates :
    ∃ a, propagate .standard clampedNetwork clampedConfig clampedRegion = .ok a ∧
      a.trace.map LayerRecord.cases = [[1, 1, 0, 0, 1, 0]] := by
  have hcases : ((propagate .standard clampedNetwork clampedConfig clampedRegion).toOption.map
      fun a => a.trace.map LayerRecord.cases) = some [[1, 1, 0, 0, 1, 0]] := by
    decide +kernel
  cases h : propagate .standard clampedNetwork clampedConfig clampedRegion with
  | error e =>
    rw [h] at hcases
    cases hcases
  | ok a =>
    rw [h] at hcases
    exact ⟨a, rfl, Option.some.inj hcases⟩

/-- The first neuron of the small network gets `3/8` at one end of the region and `-5/8` at the
other. -/
theorem smallNetwork_seesBothSigns : smallNetwork.SeesBothSigns smallRegion 0 0 := by
  have hends : ∀ e : ℚ, -1 ≤ e ∧ e ≤ 1 → smallRegion.value [e] ∈ smallRegion := by
    intro e he
    refine Zonotope.mem_iff_exists_value.mpr ⟨[e], ⟨rfl, ?_⟩, rfl⟩
    intro e' he'
    rw [List.mem_singleton.mp he']
    exact he
  exact ⟨⟨_, hends 1 (by norm_num), 3 / 8, by decide +kernel, by norm_num⟩,
    ⟨_, hends (-1) (by norm_num), -5 / 8, by decide +kernel, by norm_num⟩⟩

/-- The neuron of the small network that sees both signs is counted.  The clamped network is counted
to have a neuron at zero and one at the ceiling, and has them. -/
theorem smallNetwork_counts :
    (∃ a record, propagate .standard smallNetwork .standard smallRegion = .ok a ∧
      a.trace[0]? = some record ∧ smallNetwork.SeesBothSigns smallRegion 0 0 ∧
      1 ≤ record.unstable) ∧
    ∃ a fixed record, propagate .standard clampedNetwork clampedConfig clampedRegion = .ok a ∧
      clampedNetwork.fixedPoint clampedConfig = .ok fixed ∧ a.trace[0]? = some record ∧
      record.cases[0]? = some 1 ∧ record.cases[1]? = some 1 ∧
      (∃ i < 3, fixed.IsConstant clampedRegion 0 i 0) ∧
      ∃ i < 3, fixed.IsConstant clampedRegion 0 i fixed.ceiling := by
  constructor
  · obtain ⟨a, ha⟩ := smallNetwork_propagates
    obtain ⟨_, record, _, _, _, hrecord, _, _, hunstable, _⟩ := trace_counts_sound .standard
      smallNetwork .standard smallRegion a ha 0 (smallNetwork.layers.head (List.cons_ne_nil _ _))
      rfl rfl
    refine ⟨a, record, ha, hrecord, smallNetwork_seesBothSigns, le_trans ?_ hunstable⟩
    apply Nat.one_le_iff_ne_zero.mpr
    exact Set.ncard_ne_zero_of_mem (a := 0) ⟨by decide, smallNetwork_seesBothSigns⟩
      ((Set.finite_lt_nat _).subset fun i hi => hi.1)
  · obtain ⟨a, ha, htrace⟩ := clampedNetwork_propagates
    obtain ⟨fixed, record, zeros, saturated, hf, hrecord, hz, hs, _, hzeros, hsaturated⟩ :=
      trace_counts_sound .standard clampedNetwork clampedConfig clampedRegion a ha 0
        (clampedNetwork.layers.head (List.cons_ne_nil _ _)) rfl rfl
    have hcases : record.cases = [1, 1, 0, 0, 1, 0] := by
      have h := congrArg (·[0]?) htrace
      simp only [List.getElem?_map, hrecord] at h
      exact Option.some.inj h
    rw [hcases] at hz hs
    obtain rfl : 1 = zeros := Option.some.inj hz
    obtain rfl : 1 = saturated := Option.some.inj hs
    obtain ⟨i, hi, hzero⟩ := Set.nonempty_of_ncard_ne_zero (Nat.one_le_iff_ne_zero.mp hzeros)
    obtain ⟨j, hj, htop⟩ := Set.nonempty_of_ncard_ne_zero (Nat.one_le_iff_ne_zero.mp hsaturated)
    exact ⟨a, fixed, record, ha, hf, hrecord, by rw [hcases]; rfl, by rw [hcases]; rfl,
      ⟨i, hi, hzero⟩, j, hj, htop⟩

end QuantEnclosure
