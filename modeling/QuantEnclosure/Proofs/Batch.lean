import QuantEnclosure.Batch
import QuantEnclosure.Proofs.Refusal
import QuantEnclosure.Proofs.Propagation.Progress

/-!
Batches, in any arithmetic.  A batch has a value exactly if each of its regions has one, and then
it has the values of the regions in their order; a batch that fails does so with the failure of one
of its regions.  This holds for every order in which workers finish, also if some of them never do
(`collect_eq_ok`, `error_mem_of_collect`).  Worked through in order, a batch fails at its first
region that fails (`mapM_eq_error`).
-/

namespace QuantEnclosure

/-! ## Lists of computations -/

section

variable {β γ : Type} {f : β → Outcome γ}

theorem mapM_cons_eq_error {x : β} {xs : List β} {e : Failure} :
    (x :: xs).mapM f = .error e ↔
      f x = .error e ∨ ∃ y, f x = .ok y ∧ xs.mapM f = .error e := by
  rw [List.mapM_cons, bind_eq_error]
  refine or_congr_right (exists_congr fun y => and_congr_right fun _ => ?_)
  rw [bind_eq_error]
  constructor
  · rintro (h | ⟨_, _, h⟩)
    · exact h
    · cases h
  · exact Or.inl

/-- A list of computations fails where the first of them does, after values for all before it. -/
theorem mapM_eq_error {xs : List β} {e : Failure} :
    xs.mapM f = .error e ↔
      ∃ before x after, xs = before ++ x :: after ∧ (∀ y ∈ before, ∃ b, f y = .ok b) ∧
        f x = .error e := by
  induction xs with
  | nil =>
    constructor
    · intro h
      cases h
    · rintro ⟨before, x, after, h, _⟩
      simp at h
  | cons x xs ih =>
    rw [mapM_cons_eq_error, ih]
    constructor
    · rintro (hx | ⟨y, hy, before, z, after, rfl, hbefore, hz⟩)
      · exact ⟨[], x, xs, rfl, by simp, hx⟩
      · refine ⟨x :: before, z, after, rfl, ?_, hz⟩
        intro w hw
        rcases List.mem_cons.mp hw with rfl | hw
        · exact ⟨y, hy⟩
        · exact hbefore w hw
    · rintro ⟨before, z, after, h, hbefore, hz⟩
      cases before with
      | nil =>
        obtain ⟨rfl, rfl⟩ := List.cons.inj h
        exact Or.inl hz
      | cons w before =>
        obtain ⟨rfl, rfl⟩ := List.cons.inj h
        obtain ⟨y, hy⟩ := hbefore x (List.mem_cons_self ..)
        exact Or.inr ⟨y, hy, before, z, after, rfl,
          fun v hv => hbefore v (List.mem_cons_of_mem _ hv), hz⟩

end

namespace Batch

/-! ## Results in the order in which they are finished -/

section

variable {β : Type}

theorem error_mem_of_firstFailure {results : List (Outcome β)} {e : Failure}
    (h : firstFailure results = some e) : .error e ∈ results := by
  induction results with
  | nil => cases h
  | cons r results ih =>
    cases r with
    | error e' =>
      cases h
      exact List.mem_cons_self ..
    | ok b => exact List.mem_cons_of_mem _ (ih h)

/-- Whatever was finished first, the collected failure is one of the results. -/
theorem error_mem_of_collect {finished : List Nat} {results : List (Outcome β)} {e : Failure}
    (h : collect finished results = .error e) : .error e ∈ results := by
  unfold collect at h
  split at h
  · next e' hfirst =>
    cases h
    obtain ⟨i, _, hi⟩ := List.mem_filterMap.mp (error_mem_of_firstFailure hfirst)
    exact List.mem_of_getElem? hi
  · obtain ⟨before, r, after, rfl, _, hr⟩ := mapM_eq_error.mp h
    rw [id_eq] at hr
    simp [hr]

/-- Results are collected in their own order, and only if all of them are values. -/
theorem collect_eq_ok {finished : List Nat} {results : List (Outcome β)} {bs : List β} :
    collect finished results = .ok bs ↔ results.mapM id = .ok bs := by
  unfold collect
  split
  · next e hfirst =>
    obtain ⟨i, _, hi⟩ := List.mem_filterMap.mp (error_mem_of_firstFailure hfirst)
    constructor
    · intro h
      cases h
    · intro h
      obtain ⟨hlt, he⟩ := List.getElem?_eq_some_iff.mp hi
      have hok := getElem_of_mapM_ok h i hlt (by rw [length_of_mapM_ok h]; exact hlt)
      rw [id_eq, he] at hok
      cases hok
  · exact Iff.rfl

end

/-! ## The batch and its regions -/

variable {α : Type} [Scalar α] {cfg : BatchConfig} {finished : List Nat} {n : Network α}
  {c : Config} {regions : List (Zonotope α)}

/-- On both ways the batch has the values of its regions in their order. -/
theorem propagate_eq_ok {analyses : List (Analysis α)} :
    propagate cfg finished n c regions = .ok analyses ↔
      List.Forall₂ (fun z a => QuantEnclosure.propagate cfg.engine n c z = .ok a)
        regions analyses := by
  unfold propagate
  split
  · exact mapM_eq_ok
  · rw [collect_eq_ok, mapM_eq_ok, List.forall₂_map_left_iff]
    rfl

theorem exists_propagate_ok :
    (∃ analyses, propagate cfg finished n c regions = .ok analyses) ↔
      ∀ z ∈ regions, ∃ a, QuantEnclosure.propagate cfg.engine n c z = .ok a := by
  constructor
  · rintro ⟨analyses, h⟩ z hz
    obtain ⟨i, hi, rfl⟩ := List.getElem_of_mem hz
    have hall := propagate_eq_ok.mp h
    exact ⟨_, hall.get hi (by rw [← hall.length_eq]; exact hi)⟩
  · intro h
    obtain ⟨analyses, ha⟩ := exists_mapM_ok regions h
    exact ⟨analyses, propagate_eq_ok.mpr (mapM_eq_ok.mp ha)⟩

theorem exists_region_of_error {e : Failure} (h : propagate cfg finished n c regions = .error e) :
    ∃ z ∈ regions, QuantEnclosure.propagate cfg.engine n c z = .error e := by
  unfold propagate at h
  split at h
  · obtain ⟨before, z, after, rfl, _, hz⟩ := mapM_eq_error.mp h
    exact ⟨z, by simp, hz⟩
  · obtain ⟨z, hz, he⟩ := List.mem_map.mp (error_mem_of_collect h)
    exact ⟨z, hz, he⟩

theorem first_region_of_error (hserial : regions.length < cfg.parallelFrom) {e : Failure}
    (h : propagate cfg finished n c regions = .error e) :
    ∃ before z after, regions = before ++ z :: after ∧
      (∀ y ∈ before, ∃ a, QuantEnclosure.propagate cfg.engine n c y = .ok a) ∧
      QuantEnclosure.propagate cfg.engine n c z = .error e := by
  rw [propagate, if_pos hserial] at h
  exact mapM_eq_error.mp h

/-- A region of another dimension than the network has the whole batch refused. -/
theorem exists_error_of_dim_ne (cfg : BatchConfig) (finished : List Nat) (n : Network α)
    (c : Config) (regions : List (Zonotope α)) {z : Zonotope α} (hz : z ∈ regions)
    (hd : n.inputDim ≠ z.dim) :
    ∃ e, propagate cfg finished n c regions = .error e := by
  cases h : propagate cfg finished n c regions with
  | error e => exact ⟨e, rfl⟩
  | ok analyses =>
    obtain ⟨a, ha⟩ := exists_propagate_ok.mp ⟨analyses, h⟩ z hz
    exact absurd (QuantEnclosure.propagate_eq_ok.mp ha).1 hd

/-- A batch is as good as its regions one by one, in whatever order workers finish: it has a value
exactly if every region has one, the values stand in the order of the regions, and its failure is
that of a region, in a batch that is worked through in order that of the first one to fail. -/
theorem propagate_refines_regions (cfg : BatchConfig) (finished : List Nat) (n : Network α)
    (c : Config) (regions : List (Zonotope α)) :
    ((∃ analyses, propagate cfg finished n c regions = .ok analyses) ↔
      ∀ z ∈ regions, ∃ a, QuantEnclosure.propagate cfg.engine n c z = .ok a) ∧
    (∀ analyses, propagate cfg finished n c regions = .ok analyses →
      List.Forall₂ (fun z a => QuantEnclosure.propagate cfg.engine n c z = .ok a)
        regions analyses) ∧
    (∀ e, propagate cfg finished n c regions = .error e →
      ∃ z ∈ regions, QuantEnclosure.propagate cfg.engine n c z = .error e) ∧
    (regions.length < cfg.parallelFrom →
      ∀ e, propagate cfg finished n c regions = .error e →
        ∃ before z after, regions = before ++ z :: after ∧
          (∀ y ∈ before, ∃ a, QuantEnclosure.propagate cfg.engine n c y = .ok a) ∧
          QuantEnclosure.propagate cfg.engine n c z = .error e) :=
  ⟨exists_propagate_ok, fun _ => propagate_eq_ok.mp, fun _ => exists_region_of_error,
    fun hserial _ => first_region_of_error hserial⟩

/-- Two of these regions have another number of coordinates than the small network takes. -/
def mixedBatch : List (Zonotope ℚ) :=
  [smallRegion, Zonotope.point [0], smallRegion, Zonotope.point [0, 0, 0]]

/-- Three batches under the standard settings.  In two regions, worked through in order, the second
one has too few coordinates for the network, and that is where the batch fails.  Of four regions,
the last of which is finished first, two have a wrong number of coordinates, and the failure is that
of a region.  Four regions of the right dimension have their analyses, in whatever order they are
finished. -/
theorem mixedBatch_refused :
    ([smallRegion, Zonotope.point [0]].length < BatchConfig.standard.parallelFrom ∧
      ∃ e, propagate .standard [] smallNetwork .standard [smallRegion, Zonotope.point [0]] =
          .error e ∧
        ∃ before z after, [smallRegion, Zonotope.point [0]] = before ++ z :: after ∧
          (∀ y ∈ before, ∃ a,
            QuantEnclosure.propagate .standard smallNetwork .standard y = .ok a) ∧
          QuantEnclosure.propagate .standard smallNetwork .standard z = .error e) ∧
    (BatchConfig.standard.parallelFrom ≤ mixedBatch.length ∧
      ∃ e, propagate .standard [3, 1, 0, 2] smallNetwork .standard mixedBatch = .error e ∧
        ∃ z ∈ mixedBatch,
          QuantEnclosure.propagate .standard smallNetwork .standard z = .error e) ∧
    BatchConfig.standard.parallelFrom ≤ (List.replicate 4 smallRegion).length ∧
      ∃ analyses, propagate .standard [2, 0, 3, 1] smallNetwork .standard
          (List.replicate 4 smallRegion) = .ok analyses ∧
        List.Forall₂
          (fun z a => QuantEnclosure.propagate .standard smallNetwork .standard z = .ok a)
          (List.replicate 4 smallRegion) analyses := by
  refine ⟨⟨by decide, ?_⟩, ⟨by decide, ?_⟩, by decide, ?_⟩
  · obtain ⟨_, _, _, hfirst⟩ := propagate_refines_regions .standard [] smallNetwork .standard
      [smallRegion, Zonotope.point [0]]
    obtain ⟨e, he⟩ := exists_error_of_dim_ne .standard [] smallNetwork .standard
      [smallRegion, Zonotope.point [0]] (z := Zonotope.point [0]) (by simp) (by decide)
    exact ⟨e, he, hfirst (by decide) e he⟩
  · obtain ⟨_, _, hregion, _⟩ := propagate_refines_regions .standard [3, 1, 0, 2] smallNetwork
      .standard mixedBatch
    obtain ⟨e, he⟩ := exists_error_of_dim_ne .standard [3, 1, 0, 2] smallNetwork .standard
      mixedBatch (z := Zonotope.point [0]) (by simp [mixedBatch]) (by decide)
    exact ⟨e, he, hregion e he⟩
  · obtain ⟨hvalue, hall, _, _⟩ := propagate_refines_regions .standard [2, 0, 3, 1] smallNetwork
      .standard (List.replicate 4 smallRegion)
    obtain ⟨analyses, h⟩ := hvalue.mpr fun z hz =>
      List.eq_of_mem_replicate hz ▸ smallNetwork_propagates
    exact ⟨analyses, h, hall analyses h⟩

end Batch

end QuantEnclosure
