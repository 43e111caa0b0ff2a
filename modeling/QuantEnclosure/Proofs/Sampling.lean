import QuantEnclosure.Sampling
import QuantEnclosure.Proofs.Format.Validation
import QuantEnclosure.Proofs.Propagation.Soundness

/-!
Sampled errors.  The chunks of a sample cover its positions in order and without gaps
(`flatMap_chunkPositions`), so that in exact arithmetic the joined bounds of the chunks are the
smallest box around the errors at all sampled points, whatever the size of a chunk
(`errorBounds_isHull`).  Every sampled point is a point of the region, so this box lies inside the
bounds of the propagated error.
-/

namespace QuantEnclosure

namespace Sampling

open Box (encloses_of_isHull)
open Zonotope (value_within_box)

/-! ## Chunks -/

section

variable {samples chunkSize : Nat}

def chunkPositions (samples chunkSize chunk : Nat) : List Nat :=
  (List.range (chunkLength samples chunkSize chunk)).map (chunkStart chunkSize chunk + ·)

theorem le_chunkCount_mul (samples : Nat) (hk : 0 < chunkSize) :
    samples ≤ chunkCount samples chunkSize * chunkSize := by
  have hdiv := Nat.div_add_mod samples chunkSize
  have hmod := Nat.mod_lt samples hk
  rw [Nat.mul_comm] at hdiv
  unfold chunkCount
  split
  · omega
  · rw [Nat.add_mul, Nat.one_mul]
    omega

/-- Every chunk begins before the samples end. -/
theorem chunkStart_lt (hk : 0 < chunkSize) {chunk : Nat}
    (h : chunk < chunkCount samples chunkSize) : chunkStart chunkSize chunk < samples := by
  have hdiv := Nat.div_add_mod samples chunkSize
  rw [Nat.mul_comm] at hdiv
  unfold chunkStart
  unfold chunkCount at h
  split at h
  · have hmul := Nat.mul_le_mul_right chunkSize (Nat.succ_le_of_lt h)
    rw [Nat.succ_mul] at hmul
    omega
  · have hmul := Nat.mul_le_mul_right chunkSize (Nat.le_of_lt_succ h)
    omega

theorem chunkLength_pos (hk : 0 < chunkSize) {chunk : Nat}
    (h : chunk < chunkCount samples chunkSize) : 0 < chunkLength samples chunkSize chunk := by
  have hstart := chunkStart_lt hk h
  unfold chunkLength
  omega

/-- The first chunks hold the first samples. -/
theorem flatMap_chunkPositions_take (samples chunkSize count : Nat) :
    (List.range count).flatMap (chunkPositions samples chunkSize) =
      List.range (min (count * chunkSize) samples) := by
  induction count with
  | zero => simp
  | succ count ih =>
    rw [List.range_succ, List.flatMap_append, ih, List.flatMap_singleton, chunkPositions,
      chunkLength, chunkStart, Nat.succ_mul]
    by_cases h : count * chunkSize ≤ samples
    · have hsum : min (count * chunkSize + chunkSize) samples =
          count * chunkSize + min chunkSize (samples - count * chunkSize) := by
        omega
      rw [hsum, List.range_add, Nat.min_eq_left h]
    · have hnone : min chunkSize (samples - count * chunkSize) = 0 := by omega
      have hall : min (count * chunkSize + chunkSize) samples = min (count * chunkSize) samples := by
        omega
      rw [hnone, hall, List.range_zero, List.map_nil, List.append_nil]

/-- The chunks hold every sample once, in order. -/
theorem flatMap_chunkPositions (samples : Nat) (hk : 0 < chunkSize) :
    (List.range (chunkCount samples chunkSize)).flatMap (chunkPositions samples chunkSize) =
      List.range samples := by
  rw [flatMap_chunkPositions_take, Nat.min_eq_right (le_chunkCount_mul samples hk)]

/-- Chunks that can be computed in 64-bit words: no sum or product is too large and no difference
is negative.  No chunk is empty, and together they have as many samples as were asked for. -/
structure ChunksFit (samples chunkSize : Nat) : Prop where
  count_lt : chunkCount samples chunkSize < 2 ^ 64
  start_lt : ∀ chunk < chunkCount samples chunkSize, chunkStart chunkSize chunk < 2 ^ 64
  start_le : ∀ chunk < chunkCount samples chunkSize, chunkStart chunkSize chunk ≤ samples
  length_pos : ∀ chunk < chunkCount samples chunkSize, 0 < chunkLength samples chunkSize chunk
  sum_length : ((List.range (chunkCount samples chunkSize)).map
    (chunkLength samples chunkSize)).sum = samples

theorem chunksFit (hk : 0 < chunkSize) (hs : samples < 2 ^ 64) : ChunksFit samples chunkSize := by
  refine ⟨?_, ?_, ?_, fun _ => chunkLength_pos hk, ?_⟩
  · by_contra hlarge
    have hlast : 2 ^ 64 - 1 < chunkCount samples chunkSize := by omega
    have hstart := chunkStart_lt hk hlast
    have hmul := Nat.le_mul_of_pos_right (2 ^ 64 - 1) hk
    unfold chunkStart at hstart
    omega
  · intro chunk h
    have hstart := chunkStart_lt hk h
    omega
  · intro chunk h
    exact (chunkStart_lt hk h).le
  · have hlength := congrArg List.length (flatMap_chunkPositions samples hk)
    simpa [List.length_flatMap, chunkPositions] using hlength

end

/-! ## Bounds of errors -/

def ErrorAt (fixed : FixedPointNetwork ℚ) (region : Zonotope ℚ) (noise e : List ℚ) : Prop :=
  ∃ x, region.pointAt noise = .ok x ∧ fixed.error x = .ok e

/-- Joining the boxes of some chunks one after the other gives the box of all their points. -/
theorem foldl_join_isHull {width : Nat} {b : List (Bound ℚ)} {points : List (List ℚ)}
    (hb : Box.IsHull b points) (hlen : b.length = width) (chunks : List Nat)
    {box : Nat → List (Bound ℚ)} {drawn : Nat → List (List ℚ)}
    (h : ∀ k ∈ chunks, Box.IsHull (box k) (drawn k) ∧ (box k).length = width) :
    Box.IsHull ((chunks.map box).foldl join b) (points ++ chunks.flatMap drawn) ∧
      ((chunks.map box).foldl join b).length = width := by
  induction chunks generalizing b points with
  | nil =>
    rw [List.map_nil, List.foldl_nil, List.flatMap_nil, List.append_nil]
    exact ⟨hb, hlen⟩
  | cons k chunks ih =>
    obtain ⟨hk, hklen⟩ := h k (List.mem_cons_self ..)
    have hjoin := Box.isHull_union hb hk (hlen.trans hklen.symm)
    have hjlen : (join b (box k)).length = width := by simp [join, hlen, hklen]
    rw [List.map_cons, List.foldl_cons, List.flatMap_cons, ← List.append_assoc]
    exact ih hjoin hjlen fun j hj => h j (List.mem_cons_of_mem _ hj)

section

variable {fixed : FixedPointNetwork ℚ} {region : Zonotope ℚ} {error : List ℚ → List ℚ}
  {width : Nat}

/-- Each noise vector of a chunk widens the bounds by the error at its point. -/
theorem chunkBounds_some {bounds : List (Bound ℚ)} {points : List (List ℚ)}
    (h : Box.IsHull bounds points) (hlen : bounds.length = width) (drawn : List (List ℚ))
    (hd : ∀ noise ∈ drawn, ErrorAt fixed region noise (error noise) ∧
      (error noise).length = width) :
    ∃ bounds', chunkBounds fixed region (some bounds) drawn = .ok (some bounds') ∧
      Box.IsHull bounds' (points ++ drawn.map error) ∧ bounds'.length = width := by
  induction drawn generalizing bounds points with
  | nil => exact ⟨bounds, rfl, by simpa using h, hlen⟩
  | cons noise drawn ih =>
    obtain ⟨⟨x, hx, he⟩, hwidth⟩ := hd noise (List.mem_cons_self ..)
    have hinsert := Box.isHull_insert h (hwidth.trans hlen.symm)
    have hinlen : (Box.insert bounds (error noise)).length = width := by
      simp [Box.insert, hlen, hwidth]
    obtain ⟨bounds', hb, hhull, hblen⟩ :=
      ih hinsert hinlen fun v hv => hd v (List.mem_cons_of_mem _ hv)
    refine ⟨bounds', bind_eq_ok.mpr ⟨x, hx, bind_eq_ok.mpr ⟨_, he, hb⟩⟩, ?_, hblen⟩
    simpa using hhull

/-- The bounds of a chunk are the smallest box around the errors at its points. -/
theorem chunkBounds_none {drawn : List (List ℚ)} (hne : drawn ≠ [])
    (hd : ∀ noise ∈ drawn, ErrorAt fixed region noise (error noise) ∧
      (error noise).length = width) :
    ∃ bounds, chunkBounds fixed region none drawn = .ok (some bounds) ∧
      Box.IsHull bounds (drawn.map error) ∧ bounds.length = width := by
  cases drawn with
  | nil => exact absurd rfl hne
  | cons noise drawn =>
    obtain ⟨⟨x, hx, he⟩, hwidth⟩ := hd noise (List.mem_cons_self ..)
    obtain ⟨bounds, hb, hhull, hblen⟩ := chunkBounds_some (Box.isHull_point (error noise))
      (by simpa using hwidth) drawn fun v hv => hd v (List.mem_cons_of_mem _ hv)
    exact ⟨bounds, bind_eq_ok.mpr ⟨x, hx, bind_eq_ok.mpr ⟨_, he, hb⟩⟩, hhull, hblen⟩

end

/-- The joined bounds of chunks are the smallest box around the points of all of them. -/
theorem joinAll_isHull {width : Nat} {chunks : List Nat} (hne : chunks ≠ [])
    {box : Nat → List (Bound ℚ)} {drawn : Nat → List (List ℚ)}
    (h : ∀ k ∈ chunks, Box.IsHull (box k) (drawn k) ∧ (box k).length = width) :
    ∃ bounds, joinAll (chunks.map fun k => some (box k)) = some bounds ∧
      Box.IsHull bounds (chunks.flatMap drawn) ∧ bounds.length = width := by
  cases chunks with
  | nil => exact absurd rfl hne
  | cons k chunks =>
    obtain ⟨hk, hklen⟩ := h k (List.mem_cons_self ..)
    have hfold := foldl_join_isHull hk hklen chunks fun j hj => h j (List.mem_cons_of_mem _ hj)
    refine ⟨_, ?_, hfold⟩
    simp [joinAll, List.filterMap_map]

/-- The bounds of the sampled errors are the smallest box around the errors at all sampled points;
the size of a chunk does not matter. -/
theorem errorBounds_isHull {cfg : SamplerConfig} (hs : 0 < cfg.samples) (hk : 0 < cfg.chunkSize)
    {n : Network ℚ} {c : Config} {region : Zonotope ℚ} {fixed : FixedPointNetwork ℚ}
    (hd : n.inputDim = region.dim) (hf : n.fixedPoint c = .ok fixed) {noise : Nat → List ℚ}
    {error : List ℚ → List ℚ} {width : Nat}
    (he : ∀ i < cfg.samples, ErrorAt fixed region (noise i) (error (noise i)) ∧
      (error (noise i)).length = width) :
    ∃ bounds, errorBounds cfg noise n c region = .ok bounds ∧
      Box.IsHull bounds ((List.range cfg.samples).map fun i => error (noise i)) ∧
      bounds.length = width := by
  have hcover := flatMap_chunkPositions cfg.samples hk
  have hchunk : ∀ k ∈ List.range (chunkCount cfg.samples cfg.chunkSize), ∃ bounds,
      chunkBounds fixed region none
        ((chunkPositions cfg.samples cfg.chunkSize k).map noise) = .ok (some bounds) ∧
      Box.IsHull bounds ((chunkPositions cfg.samples cfg.chunkSize k).map fun i =>
        error (noise i)) ∧
      bounds.length = width := by
    intro k hmem
    have hpos := chunkLength_pos hk (List.mem_range.mp hmem)
    have hne : (chunkPositions cfg.samples cfg.chunkSize k).map noise ≠ [] := by
      apply List.ne_nil_of_length_pos
      simpa [chunkPositions] using hpos
    obtain ⟨bounds, hb, hhull, hlen⟩ := chunkBounds_none hne fun v hv => by
      obtain ⟨i, hi, rfl⟩ := List.mem_map.mp hv
      apply he
      rw [← List.mem_range, ← hcover]
      exact List.mem_flatMap.mpr ⟨k, hmem, hi⟩
    rw [List.map_map] at hhull
    exact ⟨bounds, hb, hhull, hlen⟩
  choose! box hbox using hchunk
  have hchunks : (List.range (chunkCount cfg.samples cfg.chunkSize)).mapM (fun k =>
      chunkBounds fixed region none
        ((List.range (chunkLength cfg.samples cfg.chunkSize k)).map fun i =>
          noise (chunkStart cfg.chunkSize k + i))) =
      .ok ((List.range (chunkCount cfg.samples cfg.chunkSize)).map fun k => some (box k)) := by
    apply mapM_ok
    intro k hmem
    have hvalue := (hbox k hmem).1
    rwa [chunkPositions, List.map_map] at hvalue
  have hne : List.range (chunkCount cfg.samples cfg.chunkSize) ≠ [] := by
    intro hempty
    rw [hempty, List.flatMap_nil, eq_comm, List.range_eq_nil] at hcover
    omega
  obtain ⟨bounds, hjoin, hhull, hlen⟩ := joinAll_isHull hne fun k hmem => (hbox k hmem).2
  refine ⟨bounds, ?_, ?_, hlen⟩
  · refine ensureDim_bind_eq_ok.mpr ⟨hd, bind_eq_ok.mpr ⟨fixed, hf, ?_⟩⟩
    refine bind_eq_ok.mpr ⟨_, hchunks, ?_⟩
    rw [hjoin]
  · rwa [← hcover, List.map_flatMap]

/-! ## A sample is never empty -/

section

variable {α : Type} [Scalar α] {fixed : FixedPointNetwork α} {region : Zonotope α}

/-- Once a chunk has bounds, it keeps bounds. -/
theorem isSome_of_chunkBounds_some {bounds : List (Bound α)} {drawn : List (List α)}
    {result : Option (List (Bound α))}
    (h : chunkBounds fixed region (some bounds) drawn = .ok result) : result.isSome := by
  induction drawn generalizing bounds with
  | nil =>
    cases h
    rfl
  | cons noise drawn ih =>
    obtain ⟨x, _, h⟩ := bind_eq_ok.mp h
    obtain ⟨e, _, h⟩ := bind_eq_ok.mp h
    exact ih h

theorem isSome_of_chunkBounds_none {drawn : List (List α)} (hne : drawn ≠ [])
    {result : Option (List (Bound α))} (h : chunkBounds fixed region none drawn = .ok result) :
    result.isSome := by
  cases drawn with
  | nil => exact absurd rfl hne
  | cons noise drawn =>
    obtain ⟨x, _, h⟩ := bind_eq_ok.mp h
    obtain ⟨e, _, h⟩ := bind_eq_ok.mp h
    exact isSome_of_chunkBounds_some h

theorem joinAll_ne_none {chunks : List (Option (List (Bound α)))} (hne : chunks ≠ [])
    (h : ∀ b ∈ chunks, b.isSome) : joinAll chunks ≠ none := by
  cases chunks with
  | nil => exact absurd rfl hne
  | cons b chunks =>
    obtain ⟨bounds, rfl⟩ := Option.isSome_iff_exists.mp (h b (List.mem_cons_self ..))
    simp [joinAll]

def noSamples : AnalysisError := .invalidConfig "no samples drawn"

theorem ensureDim_refuses_other (context : String) (m k : Nat) :
    RefusesOnly (· ≠ noSamples) (ensureDim context m k) := by
  by_cases h : m = k
  · exact refusesOnly_ensureDim context h
  · rw [ensureDim_of_ne context h]
    exact refusesOnly_refuse (by simp [noSamples])

theorem runQuantized_refusesOnly {P : AnalysisError → Prop} (ceiling : α)
    (layers : List (LiftedLayer α)) (a : List α) :
    RefusesOnly P (FixedPointNetwork.runQuantized ceiling layers a) := by
  induction layers generalizing a with
  | nil => exact refusesOnly_ok a
  | cons l layers ih =>
    refine RefusesOnly.bind ?_ fun a' _ => ih a'
    cases l.activation with
    | relu => exact refusesOnly_mapM fun x _ => roundClamp_refusesOnly ceiling x
    | identity => exact refusesOnly_ok _

theorem error_refuses_other (fixed : FixedPointNetwork α) (x : List α) :
    RefusesOnly (· ≠ noSamples) (fixed.error x) := by
  refine RefusesOnly.bind ?_ fun quantized _ => RefusesOnly.bind ?_ fun real _ => refusesOnly_ok _
  · refine (ensureDim_refuses_other _ _ _).bind fun _ _ => ?_
    refine (refusesOnly_mapM fun y _ => fixed.input.quantize_refusesOnly y).bind fun a _ => ?_
    exact (runQuantized_refusesOnly _ _ a).bind fun y _ => refusesOnly_ok _
  · exact (ensureDim_refuses_other _ _ _).bind fun _ _ => refusesOnly_ok _

theorem chunkBounds_refuses_other (bounds : Option (List (Bound α))) (drawn : List (List α)) :
    RefusesOnly (· ≠ noSamples) (chunkBounds fixed region bounds drawn) := by
  induction drawn generalizing bounds with
  | nil => exact refusesOnly_ok bounds
  | cons noise drawn ih =>
    refine RefusesOnly.bind ?_ fun x _ => ?_
    · exact (ensureDim_refuses_other _ _ _).bind fun _ _ => refusesOnly_ok _
    · exact (error_refuses_other fixed x).bind fun e _ => ih _

/-- The message of an invalid configuration begins with the name of a role. -/
theorem validate_refuses_other (c : Config) : RefusesOnly (· ≠ noSamples) c.validate := by
  refine c.validate_refuses_role.mono ?_
  rintro _ ⟨r, text, rfl⟩ h
  have htext : r.name ++ ": " ++ text = "no samples drawn" := by simpa [noSamples] using h
  have hhead := congrArg (fun s : String => s.toList.head?) htext
  cases r <;> simp [Role.name] at hhead

theorem fixedPoint_refuses_other (n : Network α) (c : Config) :
    RefusesOnly (· ≠ noSamples) (n.fixedPoint c) := by
  refine (validate_refuses_other c).bind fun _ _ => ?_
  refine c.weights.quantizer_refusesOnly.bind fun _ _ => ?_
  exact c.biases.quantizer_refusesOnly.bind fun _ _ => refusesOnly_ok _

/-- In any arithmetic, and whatever is drawn, some sample is drawn. -/
theorem errorBounds_ne_noSamples {cfg : SamplerConfig} (hs : 0 < cfg.samples)
    (hk : 0 < cfg.chunkSize) (noise : Nat → List α) (n : Network α) (c : Config)
    (region : Zonotope α) : errorBounds cfg noise n c region ≠ refuse noSamples := by
  have hrefuses : RefusesOnly (· ≠ noSamples) (errorBounds cfg noise n c region) := by
    refine (ensureDim_refuses_other _ _ _).bind fun _ _ => ?_
    refine (fixedPoint_refuses_other n c).bind fun fixed _ => ?_
    refine (refusesOnly_mapM fun k _ => chunkBounds_refuses_other _ _).bind fun chunks hc => ?_
    have hne : chunks ≠ [] := by
      intro hempty
      have hlen := length_of_mapM_ok hc
      have hle := le_chunkCount_mul cfg.samples hk
      rw [hempty, List.length_range, List.length_nil] at hlen
      rw [← hlen, Nat.zero_mul] at hle
      omega
    have hsome : ∀ b ∈ chunks, b.isSome := by
      intro b hb
      obtain ⟨i, hi, rfl⟩ := List.getElem_of_mem hb
      have hlen := length_of_mapM_ok hc
      have hvalue := getElem_of_mapM_ok hc i (by omega) hi
      rw [List.length_range] at hlen
      rw [List.getElem_range] at hvalue
      refine isSome_of_chunkBounds_none ?_ hvalue
      have hpos := chunkLength_pos hk (show i < chunkCount cfg.samples cfg.chunkSize by omega)
      apply List.ne_nil_of_length_pos
      simpa using hpos
    have hjoin := joinAll_ne_none hne hsome
    split
    · exact refusesOnly_ok _
    · next hnone => exact absurd hnone hjoin
  intro h
  exact hrefuses noSamples h rfl

end

/-! ## Sampled and propagated errors -/

/-- For every number of samples and every size of chunks that fit 64-bit words the chunks are
computed within these words, none is empty and the sample is not refused as empty.  In exact
arithmetic the bounds of the sample are the least and the greatest errors at the sampled points,
and they lie within the bounds of the propagated error. -/
theorem errorBounds_exact (cfg : SamplerConfig) (hs : 1 ≤ cfg.samples) (hk : 1 ≤ cfg.chunkSize)
    (hword : cfg.samples < 2 ^ 64) :
    ChunksFit cfg.samples cfg.chunkSize ∧
    (∀ (α : Type) [Scalar α] (noise : Nat → List α) (n : Network α) (c : Config)
      (region : Zonotope α), errorBounds cfg noise n c region ≠
        refuse (.invalidConfig "no samples drawn")) ∧
    ∀ (n : Network ℚ) (c : Config) (region : Zonotope ℚ) (noise : Nat → List ℚ),
      n.inputDim = region.dim → c.validate = .ok () →
      (∀ i < cfg.samples, Zonotope.IsNoise region.order (noise i)) →
      ∃ (fixed : FixedPointNetwork ℚ) (bounds : List (Bound ℚ)) (errors : Nat → List ℚ),
        n.fixedPoint c = .ok fixed ∧ errorBounds cfg noise n c region = .ok bounds ∧
        bounds.length = n.outputDim ∧
        (∀ i < cfg.samples, ∃ x, region.pointAt (noise i) = .ok x ∧
          fixed.error x = .ok (errors i)) ∧
        Box.IsHull bounds ((List.range cfg.samples).map errors) ∧
        ∀ engine a, propagate engine n c region = .ok a →
          ∃ enclosure, a.errorBounds = .ok enclosure ∧
            List.Forall₂ (fun b b' => b.encloses b' = true) enclosure bounds := by
  refine ⟨chunksFit hk hword, fun α _ => errorBounds_ne_noSamples hs hk, ?_⟩
  intro n c region noise hd hv hnoise
  have hf := fixedPoint_ok n hv
  generalize FixedPointNetwork.mk _ _ _ _ = fixed at hf
  have hpoint : ∀ v, Zonotope.IsNoise region.order v → ∃ e quantized real,
      ErrorAt fixed region v e ∧ e.length = n.outputDim ∧
      n.forwardQuantized c (region.value v) = .ok quantized ∧
      n.forward (region.value v) = .ok real ∧ e = Vec.sub quantized real := by
    intro v hv
    obtain ⟨quantized, real, hq, hr, hlen, he⟩ := exists_error_eq hf (x := region.value v)
      (by simpa using hd)
    refine ⟨_, quantized, real, ⟨_, region.pointAt_eq hv.length_eq, he⟩, ?_, hq, hr, rfl⟩
    simp [hlen, length_of_forward_ok hr]
  choose! error quantized real herror hwidth hquantized hreal hsub using hpoint
  obtain ⟨bounds, hb, hhull, hlen⟩ := errorBounds_isHull hs hk hd hf
    fun i hi => ⟨herror _ (hnoise i hi), hwidth _ (hnoise i hi)⟩
  refine ⟨fixed, bounds, fun i => error (noise i), hf, hb, hlen,
    fun i hi => herror _ (hnoise i hi), hhull, ?_⟩
  intro engine a ha
  have hmem : ∀ e ∈ (List.range cfg.samples).map (fun i => error (noise i)),
      List.Forall₂ (fun (b : Bound ℚ) x => b.contains x = true) a.error.box e := by
    intro e he
    obtain ⟨i, hi, rfl⟩ := List.mem_map.mp he
    have hi := hnoise i (List.mem_range.mp hi)
    obtain ⟨q, r, rest, hq, hr, _, hrest, hvalue⟩ := propagate_tracks ha hi
    obtain rfl := Except.ok.inj (hq.symm.trans (hquantized _ hi))
    obtain rfl := Except.ok.inj (hr.symm.trans (hreal _ hi))
    rw [hsub _ hi, ← hvalue]
    exact value_within_box a.error hrest
  refine ⟨a.error.box, a.error.hull_eq, encloses_of_isHull hhull ?_ hmem⟩
  have hfirst := hmem _ (List.mem_map_of_mem (List.mem_range.mpr hs))
  rw [hfirst.length_eq, hwidth _ (hnoise 0 hs), hlen]

/-- Corners of the noise cube are noise. -/
theorem isNoise_cornerNoise (order i : Nat) : Zonotope.IsNoise order (cornerNoise order i) := by
  constructor
  · simp [cornerNoise]
  · intro e he
    obtain ⟨j, _, rfl⟩ := List.mem_map.mp he
    split
    · norm_num
    · norm_num

def smallSample : SamplerConfig := { SamplerConfig.standard with samples := 5, chunkSize := 2 }

theorem smallNetwork_sampled :
    ChunksFit 5 2 ∧ ∃ bounds a enclosure,
      errorBounds smallSample (cornerNoise 1) smallNetwork .standard smallRegion = .ok bounds ∧
      propagate .standard smallNetwork .standard smallRegion = .ok a ∧
      a.errorBounds = .ok enclosure ∧
      List.Forall₂ (fun b b' => b.encloses b' = true) enclosure bounds := by
  obtain ⟨hfit, _, hexact⟩ := errorBounds_exact smallSample (by decide) (by decide) (by decide)
  obtain ⟨_, bounds, _, _, hbounds, _, _, _, henclosed⟩ := hexact smallNetwork .standard smallRegion
    (cornerNoise 1) rfl rfl fun i _ => isNoise_cornerNoise 1 i
  obtain ⟨a, ha⟩ := smallNetwork_propagates
  obtain ⟨enclosure, he, hall⟩ := henclosed .standard a ha
  exact ⟨hfit, bounds, a, enclosure, hbounds, ha, he, hall⟩

end Sampling

end QuantEnclosure
