import QuantEnclosure.Json.Value
import QuantEnclosure.Text

/-!
Reading typed data from JSON: the faults and their messages, and the readers of numbers and names.
Data is read from the tree of a text, where a fault of form can stand beside the data, or from a
value, which has none; the two differ in what they say of a name that is written as something
else.
-/

namespace QuantEnclosure.Json

/-! ## Faults -/

/-- What a reader found in the place of something else. -/
inductive Found where
  | null
  | bool (value : Bool)
  | integer (value : Int)
  | real (value : Float)
  | string (value : String)
  | sequence
  | map

def Found.text : Found → String
  | null => "null"
  | bool b => if b then "boolean `true`" else "boolean `false`"
  | integer i => s!"integer `{i}`"
  | real x => "floating point `" ++ (Number.real x).text ++ "`"
  | string s => "string " ++ Text.quoted s
  | sequence => "sequence"
  | map => "map"

/-- Why a text is not the data that was asked for. -/
inductive DecodeError where
  | missingField (name : String)
  | duplicateField (name : String)
  | unknownVariant (found : String) (known : List String)
  | invalidType (found : Found) (expected : String)
  | invalidValue (found : Found) (expected : String)
  | invalidLength (found : Nat) (expected : String)
  /-- The text is not JSON, or not of the right form. -/
  | malformed

def DecodeError.message : DecodeError → String
  | missingField name => "missing field `" ++ name ++ "`"
  | duplicateField name => "duplicate field `" ++ name ++ "`"
  | unknownVariant found known =>
    "unknown variant `" ++ found ++ "`, expected one of " ++
      ", ".intercalate (known.map fun k => "`" ++ k ++ "`")
  | invalidType found expected => "invalid type: " ++ found.text ++ ", expected " ++ expected
  | invalidValue found expected => "invalid value: " ++ found.text ++ ", expected " ++ expected
  | invalidLength found expected => s!"invalid length {found}, expected {expected}"
  | malformed => "malformed"

abbrev Decoded := Except DecodeError

def Number.found : Number → Found
  | .int i => .integer i
  | .real x => .real x

/-- What stands at a place of a text, if that can be read. -/
def Doc.found : Doc → Decoded Found
  | .null => .ok .null
  | .bool b => .ok (.bool b)
  | .number n =>
    match n.value? with
    | some v => .ok v.found
    | none => .error .malformed
  | .string units =>
    match string? units with
    | some s => .ok (.string s)
    | none => .error .malformed
  | .array _ _ => .ok .sequence
  | .object _ _ => .ok .map
  | .broken => .error .malformed

def Value.found : Value → Found
  | .null => .null
  | .bool b => .bool b
  | .number n => n.found
  | .string s => .string s
  | .array _ => .sequence
  | .object _ => .map

def Doc.mistyped {β : Type} (expected : String) (d : Doc) : Decoded β := do
  let found ← d.found
  .error (.invalidType found expected)

def Value.mistyped {β : Type} (expected : String) (v : Value) : Decoded β :=
  .error (.invalidType v.found expected)

/-! ## Numbers -/

def Doc.readNumber (expected : String) : Doc → Decoded Number
  | .number n =>
    match n.value? with
    | none => .error .malformed
    | some v => .ok v
  | d => d.mistyped expected

def Value.readNumber (expected : String) : Value → Decoded Number
  | .number n => .ok n
  | v => v.mistyped expected

def Number.integer (low high : Int) (expected : String) : Number → Decoded Int
  | .int i => if low ≤ i ∧ i ≤ high then .ok i else .error (.invalidValue (.integer i) expected)
  | .real x => .error (.invalidType (.real x) expected)

def Number.natural (expected : String) (n : Number) : Decoded Nat := do
  let i ← n.integer 0 18446744073709551615 expected
  .ok i.toNat

def Doc.integer (low high : Int) (expected : String) (d : Doc) : Decoded Int := do
  let n ← d.readNumber expected
  n.integer low high expected

def Doc.natural (expected : String) (d : Doc) : Decoded Nat := do
  let n ← d.readNumber expected
  n.natural expected

def Value.natural (expected : String) (v : Value) : Decoded Nat := do
  let n ← v.readNumber expected
  n.natural expected

def Doc.real (d : Doc) : Decoded Float := do
  let n ← d.readNumber "f64"
  .ok n.toFloat

def Value.real (v : Value) : Decoded Float := do
  let n ← v.readNumber "f64"
  .ok n.toFloat

/-! ## Variants -/

/-- The values of a type by name, in the order in which messages list the names. -/
abbrev Variants (β : Type) := List (String × β)

def Variants.named {β : Type} (variants : Variants β) (name : String) : Decoded β :=
  match variants.lookup name with
  | some b => .ok b
  | none => .error (.unknownVariant name (variants.map Prod.fst))

def Variants.read {β : Type} (variants : Variants β) (units : List Nat) : Decoded β :=
  match string? units with
  | some name => variants.named name
  | none => .error .malformed

/-- A name, alone or as the only key of an object that maps it to null. -/
def Doc.variant {β : Type} (variants : Variants β) (d : Doc) : Decoded β :=
  match d with
  | .string units => variants.read units
  | .object ((units, content) :: rest) closed => do
    let b ← variants.read units
    match content with
    | .null => if closed && rest.isEmpty then .ok b else .error .malformed
    | content => content.mistyped "unit"
  | _ => .error .malformed

/-- A name in a value: the number of keys is looked at before the name is. -/
def Value.variant {β : Type} (variants : Variants β) : Value → Decoded β
  | .string name => variants.named name
  | .object [(name, content)] => do
    let b ← variants.named name
    match content with
    | .null => .ok b
    | content => content.mistyped "unit"
  | .object _ => .error (.invalidValue .map "map with a single key")
  | v => v.mistyped "string or map"

end QuantEnclosure.Json
