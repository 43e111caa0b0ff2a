import QuantEnclosure.Network
import QuantEnclosure.Json.Schema

/-!
Networks as JSON.  A network is an object with an entry for each layer, in the order of the
layers.  An entry lists the weights by input neuron and the biases; it can also name the
activation, which has to be the identity for the last layer and the rectifier for the others.
-/

namespace QuantEnclosure

open Json

structure LayerEntry where
  /-- For each input neuron, the weights of the connections that leave it. -/
  columns : List (List Float)
  biases : List Float
  activation : Option String

namespace LayerEntry

/-! ## Reading an entry -/

def readList {β : Type} (read : Value → Decoded β) : Value → Decoded (List β)
  | .array vs => vs.mapM read
  | v => v.mistyped "a sequence"

def readActivation : Value → Decoded (Option String)
  | .null => .ok none
  | .string s => .ok (some s)
  | v => v.mistyped "a string"

def schema : Schema Value LayerEntry where
  expected := "struct RawLayer"
  initial := ⟨[], [], none⟩
  fields :=
    [ .required "weights" (readList (readList Value.real)) fun e w => { e with columns := w },
      .required "biases" (readList Value.real) fun e b => { e with biases := b },
      .optional "activation" readActivation fun e a => { e with activation := a } ]

def ofValue (v : Value) : Decoded LayerEntry := schema.readValue v

/-! ## From an entry to a layer -/

/-- The first column with another number of entries than `outputs`, counted from `j`. -/
def firstBadColumn (outputs j : Nat) : List (List Float) → Option (Nat × Nat)
  | [] => none
  | c :: rest =>
    if c.length = outputs then firstBadColumn outputs (j + 1) rest else some (j, c.length)

/-- Refuses an entry that names another activation than the one of its place. -/
def checkActivation (name : String) (e : LayerEntry) (required : Activation) : Outcome Unit :=
  match e.activation with
  | none => .ok ()
  | some text => do
    let declared ← Activation.ofText text
    if declared = required then .ok ()
    else
      refuse (.modelLoad
        s!"layer '{name}' declares {declared.name} but must be {required.name}")

def weight (e : LayerEntry) : Matrix Float :=
  Matrix.ofFn e.biases.length e.columns.length fun i j => (e.columns.getD j []).getD i 0

def toLayer (name : String) (e : LayerEntry) (required : Activation) : Outcome (Layer Float) := do
  e.checkActivation name required
  if e.columns.isEmpty then
    refuse (.modelLoad s!"layer '{name}' has no weight columns")
  else
    let outputs := e.biases.length
    match firstBadColumn outputs 0 e.columns with
    | some (j, count) =>
      refuse (.modelLoad
        s!"layer '{name}': weight column {j} has {count} entries, expected {outputs}")
    | none =>
      match Layer.ofParts e.weight e.biases required with
      | .error (.refused error) => refuse (.modelLoad s!"layer '{name}': {error.message}")
      | result => result

end LayerEntry

namespace Network

/-- The layers of a list of entries; the last one has no rectifier. -/
def readLayers : List (String × Value) → Outcome (List (Layer Float))
  | [] => .ok []
  | (name, v) :: rest =>
    match LayerEntry.ofValue v with
    | .error e => refuse (.modelLoad s!"layer '{name}': {e.message}")
    | .ok entry => do
      let layer ← entry.toLayer name (if rest.isEmpty then .identity else .relu)
      let layers ← readLayers rest
      .ok (layer :: layers)

def ofText (text : String) : Outcome (Network Float) :=
  match Value.ofText? text with
  | none => refuse (.modelLoad ("invalid JSON: " ++ DecodeError.malformed.message))
  | some (.object entries) => do
    let layers ← readLayers entries
    ofLayers layers
  | some _ => refuse (.modelLoad "expected an object keyed by layer name")

/-- The network in the file at `path`, given its content or the reason why it cannot be read. -/
def ofFile (path : String) (content : Except String String) : Outcome (Network Float) :=
  match content with
  | .ok text => ofText text
  | .error reason => refuse (.modelLoad s!"{path}: {reason}")

end Network

end QuantEnclosure
