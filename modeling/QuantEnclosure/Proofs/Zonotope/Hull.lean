import QuantEnclosure.Zonotope.Box
import QuantEnclosure.Proofs.Zonotope.Points
import Mathlib.Data.List.Forall2

/-!
Boxes.  In any arithmetic a corner takes one end of each interval, and a box around points has
their dimension.  In exact arithmetic the box that is found by inserting points one after the
other is the smallest one around them, a set of points has only one smallest box, and the corners
of a box have that box back.
-/

namespace QuantEnclosure.Box

/-! ## Corners and dimensions -/

section

variable {α : Type}

/-- A corner takes one end of each interval. -/
theorem mem_corners (bounds : List (Bound α)) (v : List α) :
    v ∈ corners bounds ↔ List.Forall₂ (fun b x => x = b.lower ∨ x = b.upper) bounds v := by
  induction bounds generalizing v with
  | nil => simp [corners]
  | cons b bounds ih =>
    simp only [corners, List.mem_flatMap, List.mem_cons, List.not_mem_nil, or_false]
    constructor
    · rintro ⟨w, hw, rfl | rfl⟩
      · exact .cons (Or.inl rfl) ((ih w).mp hw)
      · exact .cons (Or.inr rfl) ((ih w).mp hw)
    · intro h
      cases h with
      | cons hx hw =>
        rcases hx with rfl | rfl
        · exact ⟨_, (ih _).mpr hw, Or.inl rfl⟩
        · exact ⟨_, (ih _).mpr hw, Or.inr rfl⟩

theorem length_of_mem_corners {bounds : List (Bound α)} {v : List α} (h : v ∈ corners bounds) :
    v.length = bounds.length :=
  ((mem_corners bounds v).mp h).length_eq.symm

theorem lower_mem_corners (bounds : List (Bound α)) : bounds.map Bound.lower ∈ corners bounds := by
  rw [mem_corners, List.forall₂_map_right_iff]
  exact List.forall₂_same.mpr fun b _ => Or.inl rfl

theorem corners_ne_nil (bounds : List (Bound α)) : corners bounds ≠ [] :=
  List.ne_nil_of_mem (lower_mem_corners bounds)

theorem upper_mem_corners (bounds : List (Bound α)) : bounds.map Bound.upper ∈ corners bounds := by
  rw [mem_corners, List.forall₂_map_right_iff]
  exact List.forall₂_same.mpr fun b _ => Or.inr rfl

theorem vertices_eq_ok {bounds : List (Bound α)} {limit : Nat} {points : List (List α)}
    (h : vertices bounds limit = .ok points) :
    bounds.length ≤ limit ∧ bounds.length < enumerationCap ∧ points = corners bounds := by
  unfold vertices at h
  split at h
  · cases h
  · next hn =>
    cases h
    exact ⟨by omega, by omega, rfl⟩

theorem vertices_eq {bounds : List (Bound α)} {limit : Nat} (hlimit : bounds.length ≤ limit)
    (hcap : bounds.length < enumerationCap) : vertices bounds limit = .ok (corners bounds) :=
  if_neg (by omega)

theorem length_of_insertAll_ok [Scalar α] {bounds box : List (Bound α)} {ws : List (List α)}
    (h : insertAll bounds ws = .ok box) : box.length = bounds.length := by
  induction ws generalizing bounds with
  | nil =>
    cases h
    rfl
  | cons w ws ih =>
    obtain ⟨hw, h⟩ := ensureDim_bind_eq_ok.mp h
    rw [ih h, insert, List.length_zipWith, ← hw, min_self]

end

/-! ## The smallest box around points -/

/-- The box holds every point, and each of its ends is a coordinate of some point. -/
structure IsHull (box : List (Bound ℚ)) (points : List (List ℚ)) : Prop where
  length_eq : ∀ v ∈ points, v.length = box.length
  mem : ∀ v ∈ points, ∀ (i : Nat) (hb : i < box.length) (hv : i < v.length), v[i] ∈ box[i]
  lower_attained : ∀ (i : Nat) (hb : i < box.length),
    ∃ v ∈ points, ∃ hv : i < v.length, v[i] = box[i].lower
  upper_attained : ∀ (i : Nat) (hb : i < box.length),
    ∃ v ∈ points, ∃ hv : i < v.length, v[i] = box[i].upper

theorem isHull_point (v : List ℚ) : IsHull (v.map Bound.point) [v] := by
  constructor
  · simp
  · intro w hw i _ _
    obtain rfl := List.mem_singleton.mp hw
    simpa using Bound.mem_point w[i]
  · intro i hb
    have hv : i < v.length := by simpa using hb
    exact ⟨v, List.mem_singleton_self v, hv, by simp [Bound.point]⟩
  · intro i hb
    have hv : i < v.length := by simpa using hb
    exact ⟨v, List.mem_singleton_self v, hv, by simp [Bound.point]⟩

/-- The box around two smallest boxes is the smallest one around the points of both. -/
theorem isHull_union {a b : List (Bound ℚ)} {points others : List (List ℚ)} (ha : IsHull a points)
    (hb : IsHull b others) (hlen : a.length = b.length) :
    IsHull (List.zipWith Bound.union a b) (points ++ others) := by
  have hunion : (List.zipWith Bound.union a b).length = a.length := by simp [hlen]
  constructor
  · intro v hv
    rcases List.mem_append.mp hv with hv | hv
    · rw [hunion, ha.length_eq v hv]
    · rw [hunion, hlen, hb.length_eq v hv]
  · intro v hv i hi hvi
    have hai : i < a.length := by omega
    have hbi : i < b.length := by omega
    simp only [List.getElem_zipWith]
    rcases List.mem_append.mp hv with hv | hv
    · exact Bound.mem_union_left b[i] (ha.mem v hv i hai hvi)
    · exact Bound.mem_union_right a[i] (hb.mem v hv i hbi hvi)
  · intro i hi
    have hai : i < a.length := by omega
    have hbi : i < b.length := by omega
    simp only [List.getElem_zipWith, Bound.union, Scalar.lesser_eq_min]
    rcases min_choice a[i].lower b[i].lower with hmin | hmin
    · obtain ⟨v, hv, hvi, he⟩ := ha.lower_attained i hai
      exact ⟨v, List.mem_append_left _ hv, hvi, he.trans hmin.symm⟩
    · obtain ⟨v, hv, hvi, he⟩ := hb.lower_attained i hbi
      exact ⟨v, List.mem_append_right _ hv, hvi, he.trans hmin.symm⟩
  · intro i hi
    have hai : i < a.length := by omega
    have hbi : i < b.length := by omega
    simp only [List.getElem_zipWith, Bound.union, Scalar.greater_eq_max]
    rcases max_choice a[i].upper b[i].upper with hmax | hmax
    · obtain ⟨v, hv, hvi, he⟩ := ha.upper_attained i hai
      exact ⟨v, List.mem_append_left _ hv, hvi, he.trans hmax.symm⟩
    · obtain ⟨v, hv, hvi, he⟩ := hb.upper_attained i hbi
      exact ⟨v, List.mem_append_right _ hv, hvi, he.trans hmax.symm⟩

theorem isHull_insert {box : List (Bound ℚ)} {points : List (List ℚ)} {w : List ℚ}
    (h : IsHull box points) (hw : w.length = box.length) :
    IsHull (insert box w) (points ++ [w]) := by
  have hunion : insert box w = List.zipWith Bound.union box (w.map Bound.point) := by
    rw [List.zipWith_map_right]
    rfl
  rw [hunion]
  exact isHull_union h (isHull_point w) (by simp [hw])

theorem insertAll_isHull {box : List (Bound ℚ)} {points : List (List ℚ)} (h : IsHull box points)
    (ws : List (List ℚ)) (hws : ∀ w ∈ ws, w.length = box.length) :
    ∃ box', insertAll box ws = .ok box' ∧ IsHull box' (points ++ ws) := by
  induction ws generalizing box points with
  | nil => exact ⟨box, rfl, by simpa using h⟩
  | cons w ws ih =>
    have hw := hws w (List.mem_cons_self ..)
    have hlen : (insert box w).length = box.length := by simp [insert, hw]
    obtain ⟨box', hb, hh⟩ := ih (isHull_insert h hw) fun v hv => by
      rw [hlen]
      exact hws v (List.mem_cons_of_mem _ hv)
    refine ⟨box', ensureDim_bind_eq_ok.mpr ⟨hw.symm, hb⟩, ?_⟩
    simpa using hh

theorem around_isHull (v : List ℚ) (ws : List (List ℚ)) (h : ∀ w ∈ ws, w.length = v.length) :
    ∃ box, around (v :: ws) = .ok box ∧ IsHull box (v :: ws) :=
  insertAll_isHull (isHull_point v) ws (by simpa using h)

/-- A set of points has one smallest box. -/
theorem IsHull.unique {box box' : List (Bound ℚ)} {points : List (List ℚ)} (h : IsHull box points)
    (h' : IsHull box' points) (hlen : box.length = box'.length) : box = box' := by
  apply List.ext_getElem hlen
  intro i hb hb'
  obtain ⟨v, hv, hi, hvl⟩ := h.lower_attained i hb
  obtain ⟨v', hv', hi', hvl'⟩ := h'.lower_attained i hb'
  obtain ⟨w, hw, hj, hwu⟩ := h.upper_attained i hb
  obtain ⟨w', hw', hj', hwu'⟩ := h'.upper_attained i hb'
  have hlower : box[i].lower = box'[i].lower := by
    apply le_antisymm
    · rw [← hvl']
      exact (h.mem v' hv' i hb hi').1
    · rw [← hvl]
      exact (h'.mem v hv i hb' hi).1
  have hupper : box[i].upper = box'[i].upper := by
    apply le_antisymm
    · rw [← hwu]
      exact (h'.mem w hw i hb' hj).2
    · rw [← hwu']
      exact (h.mem w' hw' i hb hj').2
  cases hx : box[i]
  cases hy : box'[i]
  simp_all

/-- So it is the box that is found, if there is a point at all. -/
theorem IsHull.around_eq {box : List (Bound ℚ)} {points : List (List ℚ)} (h : IsHull box points)
    (hne : points ≠ []) : around points = .ok box := by
  cases points with
  | nil => exact absurd rfl hne
  | cons v ws =>
    have hv := h.length_eq v (List.mem_cons_self ..)
    obtain ⟨box', hbox, h'⟩ := around_isHull v ws fun w hw => by
      rw [hv, h.length_eq w (List.mem_cons_of_mem _ hw)]
    have hlen := h'.length_eq v (List.mem_cons_self ..)
    rw [hbox, h'.unique h (hlen.symm.trans hv)]

/-- A box that holds every point of a smallest box holds that box. -/
theorem encloses_of_isHull {bounds box : List (Bound ℚ)} {points : List (List ℚ)}
    (h : IsHull bounds points) (hlen : box.length = bounds.length)
    (hmem : ∀ v ∈ points, List.Forall₂ (fun (b : Bound ℚ) e => b.contains e = true) box v) :
    List.Forall₂ (fun (b b' : Bound ℚ) => b.encloses b' = true) box bounds := by
  rw [List.forall₂_iff_get]
  refine ⟨hlen, fun i hi hb => ?_⟩
  obtain ⟨v, hv, hvi, hlower⟩ := h.lower_attained i hb
  obtain ⟨w, hw, hwi, hupper⟩ := h.upper_attained i hb
  have hvmem := Bound.contains_iff.mp ((hmem v hv).get hi hvi)
  have hwmem := Bound.contains_iff.mp ((hmem w hw).get hi hwi)
  simp only [List.get_eq_getElem] at hvmem hwmem ⊢
  simp only [Bound.encloses, Bool.and_eq_true, decide_eq_true_eq, ← hlower, ← hupper]
  exact ⟨hvmem.1, hwmem.2⟩

/-! ## The box of the corners -/

/-- The images of all corners under a function that keeps the order of the ends lie in the box
between the images of the ends, and no smaller box holds them. -/
theorem isHull_corners (bounds : List (Bound ℚ)) (g : ℚ → ℚ)
    (hg : ∀ b ∈ bounds, g b.lower ≤ g b.upper) :
    IsHull (bounds.map fun b => ⟨g b.lower, g b.upper⟩) ((corners bounds).map (List.map g)) := by
  constructor
  · intro v hv
    obtain ⟨w, hw, rfl⟩ := List.mem_map.mp hv
    simp [length_of_mem_corners hw]
  · intro v hv i hb hi
    obtain ⟨w, hw, rfl⟩ := List.mem_map.mp hv
    have hbi : i < bounds.length := by simpa using hb
    have hle := hg _ (List.getElem_mem hbi)
    have hend := ((mem_corners bounds w).mp hw).get hbi (by simpa using hi)
    simp only [List.get_eq_getElem] at hend
    simp only [List.getElem_map, Bound.mem_iff]
    rcases hend with he | he
    · rw [he]
      exact ⟨le_refl _, hle⟩
    · rw [he]
      exact ⟨hle, le_refl _⟩
  · intro i hb
    exact ⟨_, List.mem_map_of_mem (lower_mem_corners bounds), by simpa using hb, by simp⟩
  · intro i hb
    exact ⟨_, List.mem_map_of_mem (upper_mem_corners bounds), by simpa using hb, by simp⟩

theorem around_map_corners {bounds : List (Bound ℚ)} {g : ℚ → ℚ}
    (hg : ∀ b ∈ bounds, g b.lower ≤ g b.upper) :
    around ((corners bounds).map (List.map g)) =
      .ok (bounds.map fun b => ⟨g b.lower, g b.upper⟩) :=
  (isHull_corners bounds g hg).around_eq (by simpa using corners_ne_nil bounds)

end QuantEnclosure.Box
