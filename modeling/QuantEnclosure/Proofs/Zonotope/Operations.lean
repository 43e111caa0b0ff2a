import QuantEnclosure.Proofs.Zonotope.Presentation

/-!
The operations on zonotopes as operations on sets of points, in exact arithmetic.  Each of them is
exact: an affine image on the same noise (`value_affineMap`), a sum and appended columns on the
noise of both parts side by side (`value_sum`, `value_appendColumns`).  Shapes that do not fit are
refused before anything is computed.
-/

namespace QuantEnclosure.Zonotope

def points (z : Zonotope ℚ) : Set (List ℚ) := {x | x ∈ z}

theorem mem_points {z : Zonotope ℚ} {x : List ℚ} : x ∈ z.points ↔ x ∈ z := Iff.rfl

/-! ## Affine images -/

theorem order_affineMap {z image : Zonotope ℚ} {weight : Matrix ℚ} {bias : List ℚ}
    (h : z.affineMap weight bias = .ok image) : image.order = z.order := by
  obtain ⟨_, hg, _⟩ := affineMap_eq_ok h
  rw [← cols_generators, hg, Matrix.cols_mul, cols_generators]

theorem value_affineMap {z image : Zonotope ℚ} {weight : Matrix ℚ} {bias : List ℚ}
    (h : z.affineMap weight bias = .ok image) (noise : List ℚ) :
    image.value noise = Vec.add (weight.mulVec (z.value noise)) bias := by
  obtain ⟨hc, hg, _⟩ := affineMap_eq_ok h
  exact value_affine hc hg noise

theorem points_affineMap {z image : Zonotope ℚ} {weight : Matrix ℚ} {bias : List ℚ}
    (h : z.affineMap weight bias = .ok image) :
    image.points = (fun x => Vec.add (weight.mulVec x) bias) '' z.points := by
  ext p
  rw [mem_points, mem_iff_exists_value, order_affineMap h]
  constructor
  · rintro ⟨noise, hn, rfl⟩
    exact ⟨_, z.value_mem hn, (value_affineMap h noise).symm⟩
  · rintro ⟨x, hx, rfl⟩
    obtain ⟨noise, hn, rfl⟩ := mem_iff_exists_value.mp hx
    exact ⟨noise, hn, value_affineMap h noise⟩

/-! ## Sums, multiples and more columns -/

theorem points_sum {a b s : Zonotope ℚ} (h : a.sum b = .ok s) :
    s.points = Set.image2 Vec.add a.points b.points := by
  ext p
  rw [mem_points, mem_sum h]
  constructor
  · rintro ⟨x, hx, y, hy, rfl⟩
    exact ⟨x, hx, y, hy, rfl⟩
  · rintro ⟨x, hx, y, hy, rfl⟩
    exact ⟨x, hx, y, hy, rfl⟩

theorem points_scale (factor : ℚ) (z : Zonotope ℚ) :
    (z.scale factor).points = Vec.scale factor '' z.points := by
  ext p
  rw [mem_points, mem_scale]
  constructor
  · rintro ⟨x, hx, rfl⟩
    exact ⟨x, hx, rfl⟩
  · rintro ⟨x, hx, rfl⟩
    exact ⟨x, hx, rfl⟩

theorem value_appendColumns {z z' : Zonotope ℚ} {columns : Matrix ℚ}
    (h : z.appendColumns columns = .ok z') {v w : List ℚ} (hv : v.length = z.order) :
    z'.value (v ++ w) = Vec.add (z.value v) (columns.mulVec w) := by
  obtain ⟨hd, hc, hg⟩ := appendColumns_eq_ok h
  unfold value
  rw [hc, hg, Matrix.mulVec_beside _ _ _ _ hv]
  apply List.ext_getElem
  · simp
  · intro i _ _
    simp only [Vec.add, List.getElem_zipWith]
    ring

/-- Appended columns add what noise on symbols of their own makes of them. -/
theorem points_appendColumns {z z' : Zonotope ℚ} {columns : Matrix ℚ}
    (h : z.appendColumns columns = .ok z') :
    z'.points = {p | ∃ x ∈ z.points, ∃ noise, IsNoise columns.cols noise ∧
      p = Vec.add x (columns.mulVec noise)} := by
  obtain ⟨_, _, hg⟩ := appendColumns_eq_ok h
  have horder : z'.order = z.order + columns.cols := by
    rw [← cols_generators, hg]
    rfl
  ext p
  rw [mem_points, mem_iff_exists_value, horder]
  constructor
  · rintro ⟨noise, hn, rfl⟩
    obtain ⟨v, w, rfl, hv, hw⟩ := hn.split
    exact ⟨_, z.value_mem hv, w, hw, value_appendColumns h hv.length_eq⟩
  · rintro ⟨x, hx, w, hw, rfl⟩
    obtain ⟨v, hv, rfl⟩ := mem_iff_exists_value.mp hx
    exact ⟨v ++ w, hv.append hw, value_appendColumns h hv.length_eq⟩

/-! ## Shapes and storage -/

/-- An image that can be stored is the image. -/
theorem affineMap_of_stored {z image : Zonotope ℚ} {weight : Matrix ℚ} {bias : List ℚ}
    (h : z.affineMapStored weight bias = .ok image) : z.affineMap weight bias = .ok image := by
  obtain ⟨_, h⟩ := ensureDim_bind_eq_ok.mp h
  obtain ⟨_, h⟩ := ensureDim_bind_eq_ok.mp h
  obtain ⟨_, _, h⟩ := bind_eq_ok.mp h
  exact h

theorem eq_pad_of_stored {z padded : Zonotope ℚ} {extra : Nat}
    (h : z.padStored extra = .ok padded) : padded = z.pad extra := by
  obtain ⟨_, _, h⟩ := bind_eq_ok.mp h
  exact (Except.ok.inj h).symm

/-! ## Exactness -/

/-- Every operation stands for the operation of its name on the sets of points, whatever the numbers
of dimensions and of generators: the affine image, where the same noise gives the image of the same
point, the sum, the multiple, columns of zeros, which change nothing, and appended columns.  Shapes
that do not fit are refused; where a result has to be stored, it is the same. -/
theorem operations_exact (z other : Zonotope ℚ) (weight columns : Matrix ℚ) (bias noise : List ℚ)
    (factor : ℚ) (extra : Nat) :
    (weight.cols = z.dim → weight.height = bias.length →
      ∃ image, z.affineMap weight bias = .ok image ∧ image.order = z.order ∧
        (∀ e, IsNoise z.order e → ∃ x, z.pointAt e = .ok x ∧
          image.pointAt e = .ok (Vec.add (weight.mulVec x) bias)) ∧
        image.points = (fun x => Vec.add (weight.mulVec x) bias) '' z.points) ∧
    (z.dim = other.dim →
      ∃ s, z.sum other = .ok s ∧ s.points = Set.image2 Vec.add z.points other.points) ∧
    (z.scale factor).points = Vec.scale factor '' z.points ∧
    (z.pad extra).points = z.points ∧
    (z.dim = columns.height →
      ∃ z', z.appendColumns columns = .ok z' ∧
        z'.points = {p | ∃ x ∈ z.points, ∃ e, IsNoise columns.cols e ∧
          p = Vec.add x (columns.mulVec e)}) ∧
    (weight.cols ≠ z.dim → z.affineMap weight bias =
      refuse (.shapeMismatch "affine map input" [weight.cols] [z.dim])) ∧
    (weight.cols = z.dim → weight.height ≠ bias.length → z.affineMap weight bias =
      refuse (.shapeMismatch "affine map bias" [weight.height] [bias.length])) ∧
    (z.dim ≠ other.dim → z.sum other =
      refuse (.shapeMismatch "minkowski sum" [z.dim] [other.dim])) ∧
    (z.dim ≠ columns.height → z.appendColumns columns =
      refuse (.shapeMismatch "appended generator rows" [z.dim] [columns.height])) ∧
    (z.order ≠ noise.length → z.pointAt noise =
      refuse (.shapeMismatch "noise assignment" [z.order] [noise.length])) ∧
    (∀ image, z.affineMapStored weight bias = .ok image → z.affineMap weight bias = .ok image) ∧
    ∀ padded, z.padStored extra = .ok padded → padded = z.pad extra := by
  refine ⟨fun hd hb => ?_, fun hd => ?_, z.points_scale factor, ?_, fun hd => ?_, fun hd => ?_,
    fun hd hb => ?_, fun hd => ?_, fun hd => ?_, fun hd => ?_, fun _ => affineMap_of_stored,
    fun _ => eq_pad_of_stored⟩
  · obtain ⟨image, h⟩ := z.affineMap_ok hd hb
    refine ⟨image, h, order_affineMap h, fun e he => ?_, points_affineMap h⟩
    have hlen : e.length = image.order := he.length_eq.trans (order_affineMap h).symm
    exact ⟨_, z.pointAt_eq he.length_eq, by rw [image.pointAt_eq hlen, value_affineMap h]⟩
  · obtain ⟨s, h⟩ := sum_ok hd
    exact ⟨s, h, points_sum h⟩
  · ext p
    exact mem_pad
  · obtain ⟨z', h, _⟩ := z.appendColumns_ok columns hd.symm
    exact ⟨z', h, points_appendColumns h⟩
  · exact ensureDim_bind_of_ne _ hd _
  · rw [affineMap, ensureDim_of_eq _ hd]
    exact ensureDim_bind_of_ne _ hb _
  · exact ensureDim_bind_of_ne _ hd _
  · exact ensureDim_bind_of_ne _ hd _
  · exact ensureDim_bind_of_ne _ hd _

def segment : Zonotope ℚ where
  center := [1, 2]
  generators := ⟨1, [[1], [0]], by decide⟩
  height_eq := rfl

/-- The sum of the coordinates over the segment, the square that two segments span, and a point of
another dimension, which cannot be added. -/
theorem segment_operations_exact :
    (∃ image, segment.affineMap ⟨2, [[1, 1]], by decide⟩ [1] = .ok image ∧
      image.pointAt [1 / 2] = .ok [9 / 2] ∧
      image.points = (fun x => Vec.add (Matrix.mulVec ⟨2, [[1, 1]], by decide⟩ x) [1]) ''
        segment.points) ∧
    (∃ square, segment.appendColumns ⟨1, [[0], [1]], by decide⟩ = .ok square ∧
      square.points = {p | ∃ x ∈ segment.points, ∃ e, IsNoise 1 e ∧
        p = Vec.add x (Matrix.mulVec ⟨1, [[0], [1]], by decide⟩ e)}) ∧
    segment.sum (point [3]) = refuse (.shapeMismatch "minkowski sum" [2] [1]) := by
  have h := operations_exact segment (point [3]) ⟨2, [[1, 1]], by decide⟩
    ⟨1, [[0], [1]], by decide⟩ [1] [] 2 3
  obtain ⟨hmap, _, _, _, happend, _, _, hsum, _⟩ := h
  obtain ⟨image, himage, _, hpoint, hpoints⟩ := hmap rfl rfl
  obtain ⟨x, hx, hy⟩ := hpoint [1 / 2] ⟨rfl, by decide +kernel⟩
  have hvalue : segment.pointAt [1 / 2] = .ok [3 / 2, 2] := by decide +kernel
  cases hx.symm.trans hvalue
  refine ⟨⟨image, himage, ?_, hpoints⟩, happend rfl, hsum (by decide)⟩
  rw [hy]
  decide +kernel

end QuantEnclosure.Zonotope
