import Mathlib.Algebra.Order.BigOperators.Group.List
import Mathlib.Data.List.Forall2
import QuantEnclosure.Proofs.Bound
import QuantEnclosure.Proofs.Linear

/-!
The points of a zonotope in exact arithmetic.  A noise vector has entries in `[-1, 1]`, and
`value` is the point it stands for.  The interval hull never fails and contains every point.
-/

namespace QuantEnclosure

open Scalar

namespace Zonotope

/-! ## Noise vectors -/

/-- One number of `[-1, 1]` for each noise symbol. -/
structure IsNoise (order : Nat) (noise : List ℚ) : Prop where
  length_eq : noise.length = order
  within : ∀ e ∈ noise, -1 ≤ e ∧ e ≤ 1

theorem IsNoise.append {m k : Nat} {v w : List ℚ} (hv : IsNoise m v) (hw : IsNoise k w) :
    IsNoise (m + k) (v ++ w) := by
  constructor
  · simp [hv.length_eq, hw.length_eq]
  · intro e he
    rcases List.mem_append.mp he with h | h
    · exact hv.within e h
    · exact hw.within e h

theorem IsNoise.of_append {m k : Nat} {v w : List ℚ} (h : IsNoise (m + k) (v ++ w))
    (hv : v.length = m) : IsNoise k w := by
  have hlen := h.length_eq
  rw [List.length_append] at hlen
  exact ⟨by omega, fun e he => h.within e (List.mem_append_right v he)⟩

def value (z : Zonotope ℚ) (noise : List ℚ) : List ℚ :=
  Vec.add z.center (z.generators.mulVec noise)

@[simp] theorem length_value (z : Zonotope ℚ) (noise : List ℚ) :
    (z.value noise).length = z.dim := by
  simp [value]

theorem pointAt_eq (z : Zonotope ℚ) {noise : List ℚ} (h : noise.length = z.order) :
    z.pointAt noise = .ok (z.value noise) :=
  ensureDim_bind_eq_ok.mpr ⟨h.symm, rfl⟩

/-- The points of a zonotope are those that noise vectors stand for. -/
instance : Membership (List ℚ) (Zonotope ℚ) where
  mem z x := ∃ noise, IsNoise z.order noise ∧ z.pointAt noise = .ok x

theorem mem_iff_exists_value {z : Zonotope ℚ} {x : List ℚ} :
    x ∈ z ↔ ∃ noise, IsNoise z.order noise ∧ z.value noise = x := by
  constructor
  · rintro ⟨noise, hn, hx⟩
    rw [z.pointAt_eq hn.length_eq] at hx
    exact ⟨noise, hn, Except.ok.inj hx⟩
  · rintro ⟨noise, hn, rfl⟩
    exact ⟨noise, hn, z.pointAt_eq hn.length_eq⟩

theorem value_mem (z : Zonotope ℚ) {noise : List ℚ} (h : IsNoise z.order noise) :
    z.value noise ∈ z :=
  mem_iff_exists_value.mpr ⟨noise, h, rfl⟩

/-- The affine image of a center and of its generators stands for the image of every point. -/
theorem value_affine {z image : Zonotope ℚ} {weight : Matrix ℚ} {bias : List ℚ}
    (hc : image.center = Vec.add (weight.mulVec z.center) bias)
    (hg : image.generators = weight.mul z.generators) (noise : List ℚ) :
    image.value noise = Vec.add (weight.mulVec (z.value noise)) bias := by
  have hsplit := weight.mulVec_vecAdd z.center (z.generators.mulVec noise) (by simp)
  unfold value
  rw [hc, hg, Matrix.mulVec_mul, hsplit]
  apply List.ext_getElem
  · simp
  · intro i _ _
    simp only [Vec.add, List.getElem_zipWith]
    ring

theorem value_scale (f : ℚ) (z : Zonotope ℚ) (noise : List ℚ) :
    (z.scale f).value noise = Vec.scale f (z.value noise) := by
  unfold value
  rw [scale, Matrix.mulVec_scale]
  apply List.ext_getElem
  · simp
  · intro i _ _
    simp [Vec.add, Vec.scale, add_mul]

theorem value_pad (z : Zonotope ℚ) (k : Nat) {v w : List ℚ} (hv : v.length = z.order) :
    (z.pad k).value (v ++ w) = z.value v := by
  unfold value
  rw [pad, withColumns, Matrix.mulVec_beside _ _ _ _ hv, Matrix.mulVec_zeros]
  apply List.ext_getElem
  · simp
  · intro i _ _
    simp [Vec.add]

theorem value_sum {a b s : Zonotope ℚ} (h : a.sum b = .ok s) {v w : List ℚ}
    (hv : v.length = a.order) : s.value (v ++ w) = Vec.add (a.value v) (b.value w) := by
  obtain ⟨hd, hc, hg⟩ := sum_eq_ok h
  unfold value
  rw [hc, hg, Matrix.mulVec_beside _ _ _ _ hv]
  apply List.ext_getElem
  · simp [hd]
  · intro i _ _
    simp only [Vec.add, List.getElem_zipWith]
    ring

/-! ## The interval hull -/

theorem radii_eq (z : Zonotope ℚ) :
    z.radii = z.generators.rows.map fun r => (r.map fun x => |x|).sum := by
  have h : (magnitude : ℚ → ℚ) = fun x => |x| := funext magnitude_eq_abs
  simp only [radii, laneSum_eq_sum, h]

theorem sum_abs_nonneg (r : List ℚ) : 0 ≤ (r.map fun x => |x|).sum := by
  apply List.sum_nonneg
  intro x hx
  obtain ⟨y, _, rfl⟩ := List.mem_map.mp hx
  exact abs_nonneg y

theorem radii_nonneg (z : Zonotope ℚ) : ∀ r ∈ z.radii, 0 ≤ r := by
  intro r hr
  rw [radii_eq] at hr
  obtain ⟨row, _, rfl⟩ := List.mem_map.mp hr
  exact sum_abs_nonneg row

def box (z : Zonotope ℚ) : List (Bound ℚ) :=
  List.zipWith (fun c r => ⟨c - r, c + r⟩) z.center z.radii

@[simp] theorem length_box (z : Zonotope ℚ) : z.box.length = z.dim := by
  simp [box]

theorem hull_eq (z : Zonotope ℚ) : z.hull = .ok z.box := by
  unfold hull
  rw [mapM_ok (g := fun p => ⟨p.1 - p.2, p.1 + p.2⟩)]
  · simp [box, List.zip, List.map_zipWith]
  · intro p hp
    have hr := z.radii_nonneg p.2 (List.of_mem_zip hp).2
    simp [Bound.around, hr]

theorem firstUnbounded_eq_none (i : Nat) (bounds : List (Bound ℚ)) :
    firstUnbounded i bounds = none := by
  induction bounds generalizing i with
  | nil => rfl
  | cons b rest ih => simp [firstUnbounded, Bound.isUnbounded, ih]

theorem finiteHull_eq (z : Zonotope ℚ) : z.finiteHull = .ok z.box := by
  refine bind_eq_ok.mpr ⟨z.box, hull_eq z, ?_⟩
  rw [firstUnbounded_eq_none]

theorem box_lower_le_upper (z : Zonotope ℚ) : ∀ b ∈ z.box, b.lower ≤ b.upper := by
  intro b hb
  obtain ⟨i, hi, rfl⟩ := List.getElem_of_mem hb
  have hr : i < z.radii.length := by simpa using hi
  have := z.radii_nonneg _ (List.getElem_mem hr)
  simp only [box, List.getElem_zipWith]
  linarith

/-- Noise moves a coordinate by at most the sum of its absolute generator entries. -/
theorem abs_dot_le (r v : List ℚ) (hv : ∀ e ∈ v, -1 ≤ e ∧ e ≤ 1) :
    |Matrix.dot r v| ≤ (r.map fun x => |x|).sum := by
  induction r generalizing v with
  | nil => simp
  | cons a r ih =>
    cases v with
    | nil =>
      simp only [Matrix.dot_nil_right, abs_zero]
      exact sum_abs_nonneg (a :: r)
    | cons b v =>
      have hb : |b| ≤ 1 := abs_le.mpr (hv b (List.mem_cons_self ..))
      have hr := ih v fun e he => hv e (List.mem_cons_of_mem _ he)
      rw [Matrix.dot_cons, List.map_cons, List.sum_cons]
      calc |a * b + Matrix.dot r v|
        _ ≤ |a * b| + |Matrix.dot r v| := abs_add_le _ _
        _ = |a| * |b| + |Matrix.dot r v| := by rw [abs_mul]
        _ ≤ |a| + (r.map fun x => |x|).sum :=
          add_le_add (mul_le_of_le_one_right (abs_nonneg a) hb) hr

theorem value_mem_box (z : Zonotope ℚ) {noise : List ℚ} (h : IsNoise z.order noise) (i : Nat)
    (hb : i < z.box.length) (hv : i < (z.value noise).length) :
    (z.value noise)[i] ∈ z.box[i] := by
  have hrow : i < z.generators.rows.length := by simpa using hb
  have hd := abs_le.mp (abs_dot_le z.generators.rows[i] noise h.within)
  simp only [Bound.mem_iff, box, value, Vec.add, Matrix.mulVec, radii_eq, List.getElem_zipWith,
    List.getElem_map]
  constructor <;> linarith

/-- A point lies in the interval hull, coordinate by coordinate. -/
theorem value_forall₂_box (z : Zonotope ℚ) {noise : List ℚ} (h : IsNoise z.order noise) :
    List.Forall₂ (· ∈ ·) (z.value noise) z.box := by
  rw [List.forall₂_iff_get]
  exact ⟨by simp, fun i hv hb => z.value_mem_box h i hb hv⟩

theorem value_within_box (z : Zonotope ℚ) {noise : List ℚ} (h : IsNoise z.order noise) :
    List.Forall₂ (fun (b : Bound ℚ) e => b.contains e = true) z.box (z.value noise) := by
  apply List.Forall₂.flip
  exact (z.value_forall₂_box h).imp fun _ _ hmem => Bound.contains_iff.mpr hmem

/-! ## Boxes as zonotopes -/

theorem radii_ofBox {bounds : List (Bound ℚ)} (h : ∀ b ∈ bounds, b.lower ≤ b.upper) :
    (ofBox bounds).radii = bounds.map Bound.radius := by
  rw [radii_eq]
  apply List.ext_getElem
  · simp [ofBox]
  · intro i hi _
    have hb : i < bounds.length := by simpa [ofBox] using hi
    have hr : 0 ≤ bounds[i].radius := by
      have := h _ (List.getElem_mem hb)
      simp only [Bound.radius, half_eq]
      linarith
    have habs : (fun j => |if i = j then bounds[i].radius else 0|) =
        fun j => if i = j then bounds[i].radius else 0 := by
      funext j
      split
      · exact abs_of_nonneg hr
      · exact abs_zero
    have hsum := Matrix.dot_unit bounds.length i bounds[i].radius
      (List.replicate bounds.length 1) (by simp) (by simpa using hb)
    have hones := Matrix.dot_ones ((List.range bounds.length).map fun j =>
      if i = j then bounds[i].radius else 0)
    rw [List.length_map, List.length_range] at hones
    simpa [ofBox, Matrix.diagonal, Function.comp_def, habs, ← hones] using hsum

/-- The interval hull of a box is that box. -/
theorem box_ofBox {bounds : List (Bound ℚ)} (h : ∀ b ∈ bounds, b.lower ≤ b.upper) :
    (ofBox bounds).box = bounds := by
  unfold box
  rw [radii_ofBox h]
  apply List.ext_getElem
  · simp [ofBox]
  · intro i _ hb
    have h₁ : bounds[i].midpoint - bounds[i].radius = bounds[i].lower := by
      simp only [Bound.midpoint, Bound.radius, half_eq]
      ring
    have h₂ : bounds[i].midpoint + bounds[i].radius = bounds[i].upper := by
      simp only [Bound.midpoint, Bound.radius, half_eq]
      ring
    simp [ofBox, h₁, h₂]

end Zonotope

end QuantEnclosure
