import QuantEnclosure.Zonotope
import QuantEnclosure.Proofs.Outcome

/-!
Heights and widths of matrices, dimensions and orders of zonotopes, and what the checked
operations on zonotopes give when they give something.  Nothing here depends on the arithmetic.
-/

namespace QuantEnclosure

variable {α : Type}

/-! ## Matrices -/

namespace Matrix

@[simp] theorem height_map {β : Type} (f : α → β) (m : Matrix α) : (m.map f).height = m.height := by
  simp [height, map]

@[simp] theorem cols_map {β : Type} (f : α → β) (m : Matrix α) : (m.map f).cols = m.cols := rfl

@[simp] theorem height_zipWith (f : α → α → α) (a b : Matrix α) :
    (zipWith f a b).height = min a.height b.height := by
  simp [height, zipWith]

@[simp] theorem cols_zipWith (f : α → α → α) (a b : Matrix α) :
    (zipWith f a b).cols = min a.cols b.cols := rfl

@[simp] theorem height_beside (a b : Matrix α) : (a.beside b).height = min a.height b.height := by
  simp [height, beside]

@[simp] theorem cols_beside (a b : Matrix α) : (a.beside b).cols = a.cols + b.cols := rfl

variable [Scalar α]

@[simp] theorem height_zeros (h c : Nat) : (zeros h c : Matrix α).height = h := by
  simp [height, zeros]

@[simp] theorem cols_zeros (h c : Nat) : (zeros h c : Matrix α).cols = c := rfl

@[simp] theorem height_diagonal (v : List α) : (diagonal v).height = v.length := by
  simp [height, diagonal]

@[simp] theorem cols_diagonal (v : List α) : (diagonal v).cols = v.length := rfl

@[simp] theorem length_mulVec (m : Matrix α) (v : List α) : (m.mulVec v).length = m.height := by
  simp [mulVec, height]

@[simp] theorem height_mul (a b : Matrix α) : (a.mul b).height = a.height := by
  simp [height, mul]

@[simp] theorem cols_mul (a b : Matrix α) : (a.mul b).cols = b.cols := rfl

@[simp] theorem height_add (a b : Matrix α) : (a.add b).height = min a.height b.height :=
  height_zipWith ..

@[simp] theorem cols_add (a b : Matrix α) : (a.add b).cols = min a.cols b.cols := rfl

@[simp] theorem height_sub (a b : Matrix α) : (a.sub b).height = min a.height b.height :=
  height_zipWith ..

@[simp] theorem cols_sub (a b : Matrix α) : (a.sub b).cols = min a.cols b.cols := rfl

@[simp] theorem height_scale (f : α) (m : Matrix α) : (m.scale f).height = m.height :=
  height_map ..

@[simp] theorem cols_scale (f : α) (m : Matrix α) : (m.scale f).cols = m.cols := rfl

@[simp] theorem height_scaleRows (f : List α) (m : Matrix α) :
    (m.scaleRows f).height = min f.length m.height := by
  simp [height, scaleRows]

@[simp] theorem cols_scaleRows (f : List α) (m : Matrix α) : (m.scaleRows f).cols = m.cols := rfl

omit [Scalar α] in
@[simp] theorem length_rows (m : Matrix α) : m.rows.length = m.height := rfl

end Matrix

namespace Vec

variable [Scalar α]

@[simp] theorem length_add (xs ys : List α) : (add xs ys).length = min xs.length ys.length := by
  simp [add]

@[simp] theorem length_sub (xs ys : List α) : (sub xs ys).length = min xs.length ys.length := by
  simp [sub]

@[simp] theorem length_mul (xs ys : List α) : (mul xs ys).length = min xs.length ys.length := by
  simp [mul]

@[simp] theorem length_scale (f : α) (xs : List α) : (scale f xs).length = xs.length := by
  simp [scale]

end Vec

/-! ## Zonotopes -/

namespace Zonotope

@[simp] theorem height_generators (z : Zonotope α) : z.generators.height = z.dim := z.height_eq

@[simp] theorem cols_generators (z : Zonotope α) : z.generators.cols = z.order := rfl

variable [Scalar α]

@[simp] theorem dim_scale (f : α) (z : Zonotope α) : (z.scale f).dim = z.dim := by
  simp [dim, scale]

@[simp] theorem order_scale (f : α) (z : Zonotope α) : (z.scale f).order = z.order := rfl

@[simp] theorem dim_pad (z : Zonotope α) (k : Nat) : (z.pad k).dim = z.dim := rfl

@[simp] theorem order_pad (z : Zonotope α) (k : Nat) : (z.pad k).order = z.order + k := rfl

@[simp] theorem dim_ofBox (bounds : List (Bound α)) : (ofBox bounds).dim = bounds.length := by
  simp [dim, ofBox]

omit [Scalar α] in
@[simp] theorem length_center (z : Zonotope α) : z.center.length = z.dim := rfl

@[simp] theorem length_radii (z : Zonotope α) : z.radii.length = z.dim := by
  simp [radii]

theorem length_of_hull_ok {z : Zonotope α} {bounds : List (Bound α)} (h : z.hull = .ok bounds) :
    bounds.length = z.dim := by
  simpa using length_of_mapM_ok h

theorem hull_of_finiteHull_ok {z : Zonotope α} {bounds : List (Bound α)}
    (h : z.finiteHull = .ok bounds) : z.hull = .ok bounds := by
  obtain ⟨bs, hb, h⟩ := bind_eq_ok.mp h
  split at h
  · cases h
    exact hb
  · cases h

theorem ofParts_eq_ok {center : List α} {generators : Matrix α} {z : Zonotope α}
    (h : ofParts center generators = .ok z) :
    z.center = center ∧ z.generators = generators := by
  obtain ⟨hd, h⟩ := ensureDim_bind_eq_ok.mp h
  dsimp only at h
  split at h
  · cases h
    exact ⟨rfl, rfl⟩
  · cases h

omit [Scalar α] in
theorem appendColumns_eq_ok {z z' : Zonotope α} {columns : Matrix α}
    (h : z.appendColumns columns = .ok z') :
    columns.height = z.dim ∧ z'.center = z.center ∧
      z'.generators = z.generators.beside columns := by
  obtain ⟨hd, h⟩ := ensureDim_bind_eq_ok.mp h
  cases h
  exact ⟨hd.symm, rfl, rfl⟩

omit [Scalar α] in
theorem appendColumns_ok (z : Zonotope α) (columns : Matrix α) (h : columns.height = z.dim) :
    ∃ z', z.appendColumns columns = .ok z' ∧ z'.dim = z.dim :=
  ⟨z.withColumns columns h, ensureDim_bind_eq_ok.mpr ⟨h.symm, rfl⟩, rfl⟩

theorem affineMap_eq_ok {z z' : Zonotope α} {weight : Matrix α} {bias : List α}
    (h : z.affineMap weight bias = .ok z') :
    z'.center = Vec.add (weight.mulVec z.center) bias ∧
      z'.generators = weight.mul z.generators ∧ weight.height = bias.length := by
  obtain ⟨_, h⟩ := ensureDim_bind_eq_ok.mp h
  obtain ⟨hb, h⟩ := ensureDim_bind_eq_ok.mp h
  cases h
  exact ⟨rfl, rfl, hb⟩

theorem affineMap_ok (z : Zonotope α) {weight : Matrix α} {bias : List α}
    (hd : weight.cols = z.dim) (hb : weight.height = bias.length) :
    ∃ z', z.affineMap weight bias = .ok z' :=
  ⟨_, ensureDim_bind_eq_ok.mpr ⟨hd, ensureDim_bind_eq_ok.mpr ⟨hb, rfl⟩⟩⟩

theorem sum_eq_ok {a b s : Zonotope α} (h : a.sum b = .ok s) :
    a.dim = b.dim ∧ s.center = Vec.add a.center b.center ∧
      s.generators = a.generators.beside b.generators := by
  obtain ⟨hd, h⟩ := ensureDim_bind_eq_ok.mp h
  cases h
  exact ⟨hd, rfl, rfl⟩

theorem sum_ok {a b : Zonotope α} (h : a.dim = b.dim) : ∃ s, a.sum b = .ok s :=
  ⟨_, ensureDim_bind_eq_ok.mpr ⟨h, rfl⟩⟩

theorem rowScaling_eq_ok {factors : List α} {m m' : Matrix α}
    (h : rowScaling factors m = .ok m') :
    m.height = factors.length ∧ m' = m.scaleRows factors := by
  obtain ⟨hd, h⟩ := ensureDim_bind_eq_ok.mp h
  cases h
  exact ⟨hd, rfl⟩

theorem rowScaling_ok (factors : List α) (m : Matrix α) (h : m.height = factors.length) :
    rowScaling factors m = .ok (m.scaleRows factors) :=
  ensureDim_bind_eq_ok.mpr ⟨h, rfl⟩

end Zonotope

end QuantEnclosure
