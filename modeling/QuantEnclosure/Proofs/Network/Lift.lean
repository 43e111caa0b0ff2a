import QuantEnclosure.Network.FixedPoint
import QuantEnclosure.Proofs.Linear
import QuantEnclosure.Proofs.Relaxation.Rectifier

/-!
Lifted networks in exact arithmetic.  The parameters of a lifted layer have the shapes of the
layer, and after every layer the lifted real pass stands at the scale times the plain pass.
-/

namespace QuantEnclosure

open Scalar

/-! ## Shapes -/

namespace LiftedLayer

variable {α : Type} [Scalar α]

structure Fits (l : LiftedLayer α) : Prop where
  cols_eq : l.quantWeight.cols = l.weight.cols
  height_eq : l.quantWeight.height = l.weight.height
  bias_eq : l.bias.length = l.weight.height
  quantBias_eq : l.quantBias.length = l.weight.height

theorem outputDim_ofLayer (weightScale biasScale : α) (quantWeight quantBias : α → α)
    (l : Layer α) :
    (ofLayer weightScale biasScale quantWeight quantBias l).outputDim = l.outputDim :=
  Matrix.height_scale ..

theorem fits_ofLayer (weightScale biasScale : α) (quantWeight quantBias : α → α) (l : Layer α) :
    (ofLayer weightScale biasScale quantWeight quantBias l).Fits := by
  have h := l.bias_length
  constructor
  · simp [ofLayer]
  · simp [ofLayer]
  · simp [ofLayer, h]
  · simp [ofLayer, h]

end LiftedLayer

section

variable {α : Type} [Scalar α] (scale : α) (quantWeight quantBias : α → α)

/-- A lifted layer is a layer with its weights and biases lifted by some factors. -/
theorem mem_liftLayers {layers : List (Layer α)} {l : LiftedLayer α}
    (h : l ∈ liftLayers scale quantWeight quantBias layers) :
    ∃ weightScale, ∃ k ∈ layers, l = .ofLayer weightScale scale quantWeight quantBias k := by
  cases layers with
  | nil => simp [liftLayers] at h
  | cons first rest =>
    rcases List.mem_cons.mp h with rfl | h
    · exact ⟨scale, first, List.mem_cons_self .., rfl⟩
    · obtain ⟨k, hk, rfl⟩ := List.mem_map.mp h
      exact ⟨1, k, List.mem_cons_of_mem _ hk, rfl⟩

@[simp] theorem length_liftLayers (layers : List (Layer α)) :
    (liftLayers scale quantWeight quantBias layers).length = layers.length := by
  cases layers with
  | nil => rfl
  | cons first rest => simp [liftLayers]

theorem liftLayers_take (layers : List (Layer α)) (k : Nat) :
    liftLayers scale quantWeight quantBias (layers.take k) =
      (liftLayers scale quantWeight quantBias layers).take k := by
  cases k with
  | zero => simp [liftLayers]
  | succ k =>
    cases layers with
    | nil => simp [liftLayers]
    | cons first rest => simp [liftLayers, List.map_take]

/-- A lifted layer has the activation and the widths of its layer. -/
theorem map_liftLayers {β : Type} (g : Activation → Nat → Nat → β) (layers : List (Layer α)) :
    (liftLayers scale quantWeight quantBias layers).map
        (fun l => g l.activation l.inputDim l.outputDim) =
      layers.map fun l => g l.activation l.inputDim l.outputDim := by
  cases layers with
  | nil => rfl
  | cons first rest =>
    simp [liftLayers, LiftedLayer.ofLayer, LiftedLayer.inputDim, LiftedLayer.outputDim,
      Layer.inputDim, Layer.outputDim]

theorem getElem_liftLayers (layers : List (Layer α)) (k : Nat)
    (h : k < (liftLayers scale quantWeight quantBias layers).length) (hk : k < layers.length) :
    (liftLayers scale quantWeight quantBias layers)[k].activation = layers[k].activation ∧
      (liftLayers scale quantWeight quantBias layers)[k].inputDim = layers[k].inputDim ∧
      (liftLayers scale quantWeight quantBias layers)[k].outputDim = layers[k].outputDim := by
  have hmap := map_liftLayers scale quantWeight quantBias (fun a i o => (a, i, o)) layers
  have hget := List.getElem_of_eq hmap (i := k) (by simpa using hk)
  simpa using hget

theorem fits_of_mem_liftLayers {layers : List (Layer α)} :
    ∀ l ∈ liftLayers scale quantWeight quantBias layers, l.Fits := by
  intro l hl
  obtain ⟨weightScale, k, _, rfl⟩ := mem_liftLayers scale quantWeight quantBias hl
  exact LiftedLayer.fits_ofLayer ..

end

/-! ## The real pass -/

theorem Activation.apply_scale (a : Activation) {f : ℚ} (hf : 0 ≤ f) (xs : List ℚ) :
    a.apply (Vec.scale f xs) = Vec.scale f (a.apply xs) := by
  cases a with
  | relu => simp [Activation.apply, Vec.scale, mul_comm _ f, rectify_mul hf]
  | identity => rfl

/-- The affine part of a layer commutes with the lift. -/
theorem affine_scale (w : Matrix ℚ) (b x : List ℚ) (f : ℚ) :
    Vec.add (Vec.scale f (w.mulVec x)) (Vec.scale f b) = Vec.scale f (Vec.add (w.mulVec x) b) := by
  apply List.ext_getElem
  · simp
  · intro i _ _
    simp [Vec.add, Vec.scale, add_mul]

theorem runReal_cons (l : LiftedLayer ℚ) (layers : List (LiftedLayer ℚ)) (x : List ℚ) :
    FixedPointNetwork.runReal (l :: layers) x = FixedPointNetwork.runReal layers
      (l.activation.apply (Vec.add (l.weight.mulVec x) l.bias)) := rfl

section

variable {f : ℚ} (quantWeight quantBias : ℚ → ℚ)

/-- The affine part of the first layer lifts its input. -/
theorem affine_ofLayer_first (l : Layer ℚ) (x : List ℚ) :
    Vec.add ((LiftedLayer.ofLayer f f quantWeight quantBias l).weight.mulVec x)
      (LiftedLayer.ofLayer f f quantWeight quantBias l).bias = Vec.scale f (l.affine x) := by
  simp only [LiftedLayer.ofLayer, Layer.affine]
  rw [Matrix.mulVec_scale, affine_scale]

/-- The affine part of a later layer keeps a lifted vector lifted. -/
theorem affine_ofLayer_later (l : Layer ℚ) (x : List ℚ) :
    Vec.add ((LiftedLayer.ofLayer 1 f quantWeight quantBias l).weight.mulVec (Vec.scale f x))
      (LiftedLayer.ofLayer 1 f quantWeight quantBias l).bias = Vec.scale f (l.affine x) := by
  simp only [LiftedLayer.ofLayer, Layer.affine]
  rw [Matrix.mulVec_vecScale, Matrix.mulVec_scale, ← affine_scale]
  simp [Vec.scale]

/-- Later layers keep a lifted vector lifted. -/
theorem runReal_later (hf : 0 ≤ f) (layers : List (Layer ℚ)) (x : List ℚ) :
    FixedPointNetwork.runReal (layers.map (.ofLayer 1 f quantWeight quantBias)) (Vec.scale f x) =
      Vec.scale f (layers.foldl (fun a l => l.apply a) x) := by
  induction layers generalizing x with
  | nil => rfl
  | cons l layers ih =>
    rw [List.map_cons, runReal_cons, List.foldl_cons, ← ih, affine_ofLayer_later,
      Activation.apply_scale _ hf]
    rfl

/-- The lifted real pass is the scale times the plain pass. -/
theorem runReal_liftLayers (hf : 0 ≤ f) {layers : List (Layer ℚ)} (hne : layers ≠ []) (x : List ℚ) :
    FixedPointNetwork.runReal (liftLayers f quantWeight quantBias layers) x =
      Vec.scale f (layers.foldl (fun a l => l.apply a) x) := by
  cases layers with
  | nil => exact absurd rfl hne
  | cons l layers =>
    rw [liftLayers, runReal_cons, List.foldl_cons, ← runReal_later quantWeight quantBias hf,
      affine_ofLayer_first, Activation.apply_scale _ hf]
    rfl

/-- Before its activation every layer of the lifted real pass stands at the scale times the plain
layer. -/
theorem affine_liftLayers (hf : 0 ≤ f) (layers : List (Layer ℚ)) (k : Nat)
    (h : k < (liftLayers f quantWeight quantBias layers).length) (hk : k < layers.length)
    (x : List ℚ) :
    Vec.add ((liftLayers f quantWeight quantBias layers)[k].weight.mulVec
        (FixedPointNetwork.runReal ((liftLayers f quantWeight quantBias layers).take k) x))
      (liftLayers f quantWeight quantBias layers)[k].bias =
        Vec.scale f (layers[k].affine ((layers.take k).foldl (fun a l => l.apply a) x)) := by
  cases layers with
  | nil => simp at hk
  | cons first rest =>
    cases k with
    | zero => exact affine_ofLayer_first quantWeight quantBias first x
    | succ k =>
      have hne : (first :: rest).take (k + 1) ≠ [] := by simp
      rw [← liftLayers_take, runReal_liftLayers quantWeight quantBias hf hne]
      simp only [liftLayers, List.getElem_cons_succ, List.getElem_map]
      exact affine_ofLayer_later quantWeight quantBias _ _

end

end QuantEnclosure
