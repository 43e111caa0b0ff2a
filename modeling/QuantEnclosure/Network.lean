import QuantEnclosure.Matrix
import QuantEnclosure.Relaxation
import QuantEnclosure.Text

/-!
Feed-forward networks of dense layers.  A layer has one bias for each row of its weights and only
finite parameters; in a network every layer takes as many numbers as the layer before it gives.
-/

namespace QuantEnclosure

open Scalar

/-! ## Activations -/

inductive Activation where
  | relu
  | identity
  deriving DecidableEq, Repr

namespace Activation

def name : Activation → String
  | relu => "ReLU"
  | identity => "Identity"

/-- The activation that a text names, whatever its case and the white space around it. -/
def ofText (text : String) : Outcome Activation :=
  let key := String.ofList (Text.lower (Text.trim text.toList))
  if key = "relu" then .ok relu
  else if key = "identity" ∨ key = "id" ∨ key = "linear" then .ok identity
  else refuse (.unsupportedActivation text)

def apply {α : Type} [Scalar α] : Activation → List α → List α
  | relu, xs => xs.map rectify
  | identity, xs => xs

end Activation

/-! ## Layers -/

/-- The dense layer `x ↦ activation (W x + b)`. -/
structure Layer (α : Type) [Scalar α] where
  weight : Matrix α
  bias : List α
  activation : Activation
  bias_length : weight.height = bias.length
  finite : (weight.isFinite && Vec.isFinite bias) = true

namespace Layer

variable {α : Type} [Scalar α]

/-- A layer with the given parameters, refused if a bias is missing or a number is not finite. -/
def ofParts (weight : Matrix α) (bias : List α) (activation : Activation) :
    Outcome (Layer α) := do
  let ⟨h⟩ ← ensureDim "layer bias" weight.height bias.length
  if hf : (weight.isFinite && Vec.isFinite bias) = true then
    .ok ⟨weight, bias, activation, h, hf⟩
  else refuse (.invalidNetwork "layer parameters must be finite")

def inputDim (l : Layer α) : Nat := l.weight.cols

def outputDim (l : Layer α) : Nat := l.weight.height

def affine (l : Layer α) (x : List α) : List α := Vec.add (l.weight.mulVec x) l.bias

def apply (l : Layer α) (x : List α) : List α := l.activation.apply (l.affine x)

end Layer

/-! ## Networks -/

section

variable {α : Type} [Scalar α]

/-- Every layer takes what the layer before it gives. -/
def Linked : List (Layer α) → Prop
  | a :: b :: rest => a.outputDim = b.inputDim ∧ Linked (b :: rest)
  | _ => True

/-- Checks the links between layers in order, the first one leading to layer `k`. -/
def checkLinks : (k : Nat) → (layers : List (Layer α)) → Outcome (PLift (Linked layers))
  | _, [] => .ok ⟨trivial⟩
  | _, [_] => .ok ⟨trivial⟩
  | k, a :: b :: rest => do
    let ⟨h⟩ ← ensureDim s!"layer {k} input" a.outputDim b.inputDim
    let ⟨t⟩ ← checkLinks (k + 1) (b :: rest)
    .ok ⟨⟨h, t⟩⟩

end

/-- A network: at least one layer, each fitting the one before it. -/
structure Network (α : Type) [Scalar α] where
  layers : List (Layer α)
  nonempty : layers ≠ []
  linked : Linked layers

namespace Network

variable {α : Type} [Scalar α]

def ofLayers (layers : List (Layer α)) : Outcome (Network α) :=
  if h : layers = [] then refuse (.invalidNetwork "network has no layers")
  else do
    let ⟨l⟩ ← checkLinks 1 layers
    .ok ⟨layers, h, l⟩

def inputDim (n : Network α) : Nat := (n.layers.head n.nonempty).inputDim

def outputDim (n : Network α) : Nat := (n.layers.getLast n.nonempty).outputDim

def rectifierCount (n : Network α) : Nat :=
  n.layers.countP fun l => l.activation == .relu

def forward (n : Network α) (x : List α) : Outcome (List α) := do
  let _ ← ensureDim "network input" n.inputDim x.length
  .ok (n.layers.foldl (fun a l => l.apply a) x)

end Network

end QuantEnclosure
