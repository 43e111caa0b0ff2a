import QuantEnclosure.Network
import QuantEnclosure.Format.Config
import QuantEnclosure.Relaxation.RoundClamp

/-!
Networks in fixed-point arithmetic.  Both the real and the quantized parameters are lifted into
the integer domain of the activations: with the scale `F` of the activations, every bias and the
weights of the first layer are multiplied by `F`.  After the last layer the result is divided by
`F`, so that a lifted real pass computes what the network computes, and a quantized pass computes
what a device with these formats computes.
-/

namespace QuantEnclosure

open Scalar

/-- Real and quantized parameters of a layer in the integer domain. -/
structure LiftedLayer (α : Type) where
  weight : Matrix α
  quantWeight : Matrix α
  bias : List α
  quantBias : List α
  activation : Activation

/-- A network with lifted parameters, the format of its input, its scale and its ceiling. -/
structure FixedPointNetwork (α : Type) where
  layers : List (LiftedLayer α)
  input : Format
  scale : α
  ceiling : α

variable {α : Type} [Scalar α]

namespace LiftedLayer

def inputDim (l : LiftedLayer α) : Nat := l.weight.cols

def outputDim (l : LiftedLayer α) : Nat := l.weight.height

/-- Lifts a layer: the weights by `weightScale`, the biases by `biasScale`. -/
def ofLayer (weightScale biasScale : α) (quantWeight quantBias : α → α) (l : Layer α) :
    LiftedLayer α where
  weight := l.weight.scale weightScale
  quantWeight := (l.weight.map quantWeight).scale weightScale
  bias := Vec.scale biasScale l.bias
  quantBias := Vec.scale biasScale (l.bias.map quantBias)
  activation := l.activation

end LiftedLayer

/-- Lifts the layers of a network: only the first layer's weights carry the scale, since later
layers take numbers that are lifted already. -/
def liftLayers (scale : α) (quantWeight quantBias : α → α) : List (Layer α) → List (LiftedLayer α)
  | [] => []
  | first :: rest =>
    .ofLayer scale scale quantWeight quantBias first ::
      rest.map (.ofLayer 1 scale quantWeight quantBias)

/-- The network in the formats of a configuration, which must be valid. -/
def Network.fixedPoint (n : Network α) (c : Config) : Outcome (FixedPointNetwork α) := do
  c.validate
  let quantWeight ← c.weights.quantizer
  let quantBias ← c.biases.quantizer
  .ok
    { layers := liftLayers c.scale quantWeight quantBias n.layers
      input := c.input
      scale := c.scale
      ceiling := c.ceiling }

namespace FixedPointNetwork

def inputDim (n : FixedPointNetwork α) : Nat := (n.layers.head?.map LiftedLayer.inputDim).getD 0

def runReal (layers : List (LiftedLayer α)) (x : List α) : List α :=
  layers.foldl (fun a l => l.activation.apply (Vec.add (l.weight.mulVec a) l.bias)) x

def quantActivation (ceiling : α) : Activation → List α → Outcome (List α)
  | .relu, xs => xs.mapM (roundClamp ceiling)
  | .identity, xs => .ok xs

def runQuantized (ceiling : α) : List (LiftedLayer α) → List α → Outcome (List α)
  | [], a => .ok a
  | l :: rest, a => do
    let a' ← quantActivation ceiling l.activation (Vec.add (l.quantWeight.mulVec a) l.quantBias)
    runQuantized ceiling rest a'

def forwardReal (n : FixedPointNetwork α) (x : List α) : Outcome (List α) := do
  let _ ← ensureDim "network input" n.inputDim x.length
  .ok ((runReal n.layers x).map (· / n.scale))

/-- The quantized pass from `x`, taken back from the integer domain. -/
def forwardQuantized (n : FixedPointNetwork α) (x : List α) : Outcome (List α) := do
  let _ ← ensureDim "network input" n.inputDim x.length
  let a ← n.input.quantizeVec x
  let y ← runQuantized n.ceiling n.layers a
  .ok (y.map (· / n.scale))

/-- What quantization adds to the value of the network at `x`. -/
def error (n : FixedPointNetwork α) (x : List α) : Outcome (List α) := do
  let quantized ← n.forwardQuantized x
  let real ← n.forwardReal x
  .ok (Vec.sub quantized real)

end FixedPointNetwork

def Network.forwardQuantized (n : Network α) (c : Config) (x : List α) : Outcome (List α) := do
  let fixed ← n.fixedPoint c
  fixed.forwardQuantized x

end QuantEnclosure
