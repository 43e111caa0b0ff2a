import QuantEnclosure.Format
import QuantEnclosure.Text

/-!
The formats of a quantized network: one for each role that a number can play.  The format of the
activations also fixes the integer domain of the analysis, its scale and its ceiling.
-/

namespace QuantEnclosure

/-- The roles of numbers in a network, in the order in which they are checked. -/
inductive Role where
  | input
  | weights
  | biases
  | activations
  deriving DecidableEq, Repr

namespace Role

def all : List Role := [input, weights, biases, activations]

def name : Role → String
  | input => "input"
  | weights => "weights"
  | biases => "biases"
  | activations => "activations"

def ofText (text : String) : Outcome Role :=
  let lower := String.ofList (Text.lower text.toList)
  match all.find? fun r => r.name == lower with
  | some r => .ok r
  | none => refuse (.invalidConfig ("unknown quantization role '" ++ lower ++ "'"))

end Role

structure Config where
  input : Format
  weights : Format
  biases : Format
  activations : Format
  deriving DecidableEq, Repr

namespace Config

/-- Eight-bit input, ten-bit parameters and activations, all with eight fractional bits. -/
def standard : Config where
  input := ⟨.symmetric, 8, 8⟩
  weights := ⟨.symmetric, 10, 8⟩
  biases := ⟨.symmetric, 10, 8⟩
  activations := ⟨.positiveOnly, 10, 8⟩

def get (c : Config) : Role → Format
  | .input => c.input
  | .weights => c.weights
  | .biases => c.biases
  | .activations => c.activations

/-- Refuses a configuration with an invalid format; the message names the first such role. -/
def validate (c : Config) : Outcome Unit :=
  Role.all.forM fun r => (c.get r).validateAs (r.name ++ ": ")

def uniform (f : Format) : Outcome Config := do
  let c : Config := ⟨f, f, f, f⟩
  c.validate
  .ok c

variable {α : Type} [Scalar α]

/-- The largest quantized activation, `2^bits - 1` for either strategy: activations are never
negative, so no bit is spent on a sign. -/
def ceiling (c : Config) : α := Scalar.twoPow c.activations.signedBits.toInt - 1

def scale (c : Config) : α := c.activations.scaleFactor

end Config

end QuantEnclosure
