import QuantEnclosure.Proofs.Zonotope.Corners

/-!
The interval hull is the smallest box around a zonotope, in exact arithmetic.  The signs of a row of
generator entries are a corner of the noise cube that moves this coordinate to the end of its
interval (`dot_signs`), so both ends are attained at corners (`exists_corner_lower`,
`exists_corner_upper`) and the corners of the cube alone have the hull (`around_cornerValues`).
-/

namespace QuantEnclosure.Zonotope

open QuantEnclosure.Matrix

/-! ## Corners of the noise cube -/

/-- Every noise symbol takes an end of `[-1, 1]`. -/
structure IsCorner (order : Nat) (noise : List ℚ) : Prop where
  length_eq : noise.length = order
  ends : ∀ e ∈ noise, e = -1 ∨ e = 1

theorem IsCorner.isNoise {order : Nat} {noise : List ℚ} (h : IsCorner order noise) :
    IsNoise order noise := by
  refine ⟨h.length_eq, fun e he => ?_⟩
  rcases h.ends e he with rfl | rfl
  · norm_num
  · norm_num

def noiseCube (order : Nat) : List (Bound ℚ) := List.replicate order ⟨-1, 1⟩

@[simp] theorem length_noiseCube (order : Nat) : (noiseCube order).length = order :=
  List.length_replicate

theorem mem_corners_noiseCube {order : Nat} {noise : List ℚ} :
    noise ∈ Box.corners (noiseCube order) ↔ IsCorner order noise := by
  rw [Box.mem_corners, List.forall₂_iff_get]
  constructor
  · rintro ⟨hlen, hends⟩
    rw [length_noiseCube] at hlen
    refine ⟨hlen.symm, fun e he => ?_⟩
    obtain ⟨i, hi, rfl⟩ := List.getElem_of_mem he
    simpa [noiseCube] using hends i (by simpa [hlen] using hi) hi
  · rintro ⟨hlen, hends⟩
    refine ⟨by simp [hlen], fun i _ hi => ?_⟩
    simpa [noiseCube] using hends noise[i] (List.getElem_mem hi)

/-! ## Both ends are attained -/

/-- The signs of the entries of a row, all turned around if `s` is negative. -/
def signs (s : ℚ) (row : List ℚ) : List ℚ := row.map fun a => if 0 ≤ a then s else -s

theorem isCorner_signs {s : ℚ} (hs : s = 1 ∨ s = -1) (row : List ℚ) :
    IsCorner row.length (signs s row) := by
  refine ⟨by simp [signs], fun e he => ?_⟩
  obtain ⟨a, _, rfl⟩ := List.mem_map.mp he
  split <;> rcases hs with rfl | rfl <;> norm_num

/-- The signs of a row give the sum of its absolute entries. -/
theorem dot_signs (s : ℚ) (row : List ℚ) :
    dot row (signs s row) = s * (row.map fun x => |x|).sum := by
  induction row with
  | nil => simp
  | cons a row ih =>
    have hentry : a * (if 0 ≤ a then s else -s) = s * |a| := by
      split
      · next ha => rw [abs_of_nonneg ha, mul_comm]
      · next ha =>
        rw [abs_of_neg (not_le.mp ha)]
        ring
    rw [signs, List.map_cons, dot_cons, hentry, ← signs, ih, List.map_cons, List.sum_cons, mul_add]

/-- A corner of the noise cube reaches the end of a coordinate to which `s` points. -/
theorem exists_corner_eq (z : Zonotope ℚ) {i : Nat} (hi : i < z.box.length) {s : ℚ}
    (hs : s = 1 ∨ s = -1) :
    ∃ noise, IsCorner z.order noise ∧
      (z.value noise)[i]? = some (z.box[i].midpoint + s * z.box[i].radius) := by
  have hd : i < z.dim := by simpa using hi
  have hrow : i < z.generators.rows.length := by simpa using hd
  have hcorner := isCorner_signs hs z.generators.rows[i]
  rw [z.generators.width_eq _ (List.getElem_mem hrow)] at hcorner
  refine ⟨_, hcorner, ?_⟩
  rw [List.getElem?_eq_getElem (by simpa using hd)]
  simp only [value, Vec.add, mulVec, box, radii_eq, List.getElem_zipWith, List.getElem_map,
    Bound.midpoint, Bound.radius, Scalar.half_eq, dot_signs]
  congr 1
  ring

theorem exists_corner_lower (z : Zonotope ℚ) {i : Nat} (hi : i < z.box.length) :
    ∃ noise, IsCorner z.order noise ∧ (z.value noise)[i]? = some z.box[i].lower := by
  obtain ⟨noise, hn, he⟩ := z.exists_corner_eq hi (Or.inr rfl)
  refine ⟨noise, hn, ?_⟩
  rw [he, ← congrArg Bound.lower z.box[i].midpoint_radius]
  congr 1
  ring

theorem exists_corner_upper (z : Zonotope ℚ) {i : Nat} (hi : i < z.box.length) :
    ∃ noise, IsCorner z.order noise ∧ (z.value noise)[i]? = some z.box[i].upper := by
  obtain ⟨noise, hn, he⟩ := z.exists_corner_eq hi (Or.inl rfl)
  refine ⟨noise, hn, ?_⟩
  rw [he, ← congrArg Bound.upper z.box[i].midpoint_radius]
  congr 1
  ring

/-! ## The smallest box -/

/-- The hull is the smallest box around the points of the corners of the noise cube. -/
theorem isHull_cornerValues (z : Zonotope ℚ) :
    Box.IsHull z.box ((Box.corners (noiseCube z.order)).map z.value) := by
  constructor
  · intro v hv
    obtain ⟨noise, _, rfl⟩ := List.mem_map.mp hv
    simp
  · intro v hv i hb hi
    obtain ⟨noise, hn, rfl⟩ := List.mem_map.mp hv
    exact z.value_mem_box (mem_corners_noiseCube.mp hn).isNoise i hb hi
  · intro i hb
    obtain ⟨noise, hn, he⟩ := z.exists_corner_lower hb
    obtain ⟨hi, he⟩ := List.getElem?_eq_some_iff.mp he
    exact ⟨_, List.mem_map_of_mem (mem_corners_noiseCube.mpr hn), hi, he⟩
  · intro i hb
    obtain ⟨noise, hn, he⟩ := z.exists_corner_upper hb
    obtain ⟨hi, he⟩ := List.getElem?_eq_some_iff.mp he
    exact ⟨_, List.mem_map_of_mem (mem_corners_noiseCube.mpr hn), hi, he⟩

theorem around_cornerValues (z : Zonotope ℚ) :
    Box.around ((Box.corners (noiseCube z.order)).map z.value) = .ok z.box :=
  z.isHull_cornerValues.around_eq (by simpa using Box.corners_ne_nil (noiseCube z.order))

/-- The interval hull never fails.  It holds every point of the zonotope, and both ends of each
interval are attained at corners of the noise cube; so where these corners can be listed, the box
around their points is the hull.  The hull of a box is that box. -/
theorem hull_exact (z : Zonotope ℚ) :
    (∃ hull, z.hull = .ok hull ∧ hull.length = z.dim ∧
      (∀ noise, IsNoise z.order noise → ∃ x, z.pointAt noise = .ok x ∧
        List.Forall₂ (fun b e => b.contains e = true) hull x) ∧
      (∀ (i : Nat) (hi : i < hull.length),
        (∃ noise x, IsCorner z.order noise ∧ z.pointAt noise = .ok x ∧
          x[i]? = some hull[i].lower) ∧
        ∃ noise x, IsCorner z.order noise ∧ z.pointAt noise = .ok x ∧
          x[i]? = some hull[i].upper) ∧
      ∀ limit, z.order ≤ limit → z.order < 64 → ∃ corners points,
        Box.vertices (noiseCube z.order) limit = .ok corners ∧
        corners.mapM z.pointAt = .ok points ∧ Box.around points = .ok hull) ∧
    ∀ bounds : List (Bound ℚ), (∀ b ∈ bounds, b.lower ≤ b.upper) →
      (ofBox bounds).hull = .ok bounds := by
  refine ⟨⟨z.box, z.hull_eq, z.length_box, fun noise hn => ?_, fun i hi => ⟨?_, ?_⟩,
    fun limit hlimit hcap => ?_⟩, fun bounds hb => ?_⟩
  · exact ⟨_, z.pointAt_eq hn.length_eq, z.value_within_box hn⟩
  · obtain ⟨noise, hn, he⟩ := z.exists_corner_lower hi
    exact ⟨noise, _, hn, z.pointAt_eq hn.length_eq, he⟩
  · obtain ⟨noise, hn, he⟩ := z.exists_corner_upper hi
    exact ⟨noise, _, hn, z.pointAt_eq hn.length_eq, he⟩
  · have hlen := length_noiseCube z.order
    refine ⟨_, _, Box.vertices_eq (hlen.trans_le hlimit) (hlen.trans_lt hcap),
      mapM_ok _ fun noise hn => ?_, z.around_cornerValues⟩
    exact z.pointAt_eq (mem_corners_noiseCube.mp hn).length_eq
  · rw [hull_eq, box_ofBox hb]

/-- Two coordinates on two symbols, the first coordinate with entries of both signs. -/
def tilted : Zonotope ℚ where
  center := [1, -2]
  generators := ⟨2, [[1 / 2, -1 / 4], [0, 1]], by decide⟩
  height_eq := rfl

theorem tilted_hull_exact :
    tilted.hull = .ok [⟨1 / 4, 7 / 4⟩, ⟨-3, -1⟩] ∧
      (∃ noise x, IsCorner 2 noise ∧ tilted.pointAt noise = .ok x ∧ x[0]? = some (7 / 4)) ∧
      (∃ corners points, Box.vertices (noiseCube 2) 16 = .ok corners ∧
        corners.mapM tilted.pointAt = .ok points ∧
        Box.around points = .ok [⟨1 / 4, 7 / 4⟩, ⟨-3, -1⟩]) ∧
      (ofBox [⟨-1, 3⟩, ⟨1 / 2, 1 / 2⟩]).hull = .ok [⟨-1, 3⟩, (⟨1 / 2, 1 / 2⟩ : Bound ℚ)] := by
  have hhull : tilted.hull = .ok [⟨1 / 4, 7 / 4⟩, ⟨-3, -1⟩] := by decide +kernel
  obtain ⟨⟨hull, h, _, _, hends, hcorners⟩, hbox⟩ := hull_exact tilted
  cases h.symm.trans hhull
  exact ⟨hhull, (hends 0 (by decide)).2, hcorners 16 (by decide) (by decide),
    hbox _ (by decide +kernel)⟩

end QuantEnclosure.Zonotope
