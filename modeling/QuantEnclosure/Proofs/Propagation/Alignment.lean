import QuantEnclosure.Proofs.Network.Lift
import QuantEnclosure.Proofs.Propagation.Steps

/-!
The two zonotopes of a trajectory stay aligned, in any arithmetic: they always have the same
dimension and the same symbols.  A layer sets the dimension to its output width, and a rectifier
adds two symbols for each of its neurons.
-/

namespace QuantEnclosure

open Trajectory

variable {α : Type} [Scalar α]

namespace Trajectory

/-- Both zonotopes have the given dimension and the given number of symbols. -/
structure Shaped (t : Trajectory α) (dim order : Nat) : Prop where
  exact_dim : t.exact.dim = dim
  error_dim : t.error.dim = dim
  exact_order : t.exact.order = order
  error_order : t.error.order = order

omit [Scalar α] in
theorem Shaped.ensureAligned_ok {t : Trajectory α} {dim order : Nat} (h : t.Shaped dim order) :
    t.ensureAligned = .ok () :=
  ensureAligned_eq_ok.mpr
    ⟨h.exact_order.trans h.error_order.symm, h.exact_dim.trans h.error_dim.symm⟩

theorem start_shaped {cfg : EngineConfig} {f : Format} {region : Zonotope α} {t : Trajectory α}
    {method : RegionMethod} (h : start cfg f region = .ok (t, method)) :
    t.Shaped region.dim (region.order + region.dim) := by
  obtain ⟨_, quantized, _, errors, _, _, _, _, hs⟩ := start_eq_ok h
  have hlen := hs.length_eq
  constructor
  · rw [hs.exact_eq, Zonotope.dim_pad]
  · rw [← Zonotope.height_generators, hs.error_generators]
    simp [hlen]
  · rw [hs.exact_eq, Zonotope.order_pad]
  · rw [← Zonotope.cols_generators, hs.error_generators]
    simp [hlen]

variable {t t' : Trajectory α} {dim order : Nat}

theorem AffineImage.shaped {l : LiftedLayer α} (h : AffineImage l t t') (hl : l.Fits)
    (ht : t.Shaped dim order) : t'.Shaped l.outputDim order := by
  have hh := hl.height_eq
  constructor
  · rw [← Zonotope.height_generators, h.exact_generators, Matrix.height_mul]
    rfl
  · rw [← Zonotope.height_generators, h.error_generators]
    simp [hh, LiftedLayer.outputDim]
  · rw [← Zonotope.cols_generators, h.exact_generators]
    simp [ht.exact_order]
  · rw [← Zonotope.cols_generators, h.error_generators]
    simp [ht.exact_order, ht.error_order]

theorem Rectified.shaped {ceiling : α} {r : Relaxed α} (hr : t.relax ceiling = .ok r)
    (h : Rectified r t t') (ht : t.Shaped dim order) : t'.Shaped dim (order + 2 * dim) := by
  obtain ⟨hx, hq⟩ := length_of_relax_ok hr
  rw [ht.exact_dim] at hx hq
  have hdim : t'.exact.dim = dim := by
    rw [← Zonotope.length_center, h.exact_center]
    simp [hx, ht.exact_dim]
  constructor
  · exact hdim
  · rw [← Zonotope.length_center, h.error_center]
    simp [hx, hq, ht.exact_dim, ht.error_dim]
  · rw [← Zonotope.cols_generators, h.exact_generators]
    simp [hx, ht.exact_order, ht.exact_dim]
    omega
  · rw [← Zonotope.cols_generators, h.error_generators]
    simp [hx, hq, ht.exact_order, ht.error_order]
    omega

/-- The number of neurons that a rectifier of the given activation and width has. -/
def rectifiers (a : Activation) (width : Nat) : Nat :=
  match a with
  | .relu => width
  | .identity => 0

/-- A layer whose affine part leads to `t` gives the shape of the layer. -/
theorem activationStep_shaped {ceiling : α} {activation : Activation} {relaxed : Relaxed α}
    (h : t.activationStep ceiling activation = .ok (t', relaxed)) (ht : t.Shaped dim order) :
    t'.Shaped dim (order + 2 * rectifiers activation dim) := by
  cases activation with
  | relu =>
    obtain ⟨hrelax, hrect⟩ := reluStep_eq_ok h
    exact hrect.shaped hrelax ht
  | identity =>
    cases h
    exact ht

/-- After a layer the trajectory has the shape of the layer. -/
theorem step_shaped {scale ceiling : α} {index : Nat} {l : LiftedLayer α} (hl : l.Fits)
    {record : LayerRecord α} (h : t.step scale ceiling index l = .ok (t', record))
    (ht : t.Shaped dim order) :
    t'.Shaped l.outputDim (order + 2 * rectifiers l.activation l.outputDim) := by
  obtain ⟨t₁, relaxed, bounds, ha, hr, _, _⟩ := step_eq_ok h
  exact activationStep_shaped hr ((affineStep_eq_ok ha).shaped hl ht)

end Trajectory

end QuantEnclosure
