import QuantEnclosure.Json.Decode

/-!
Records in JSON.  A record is written as an object with its fields in any order, or as a list of
its fields in their own order; fields that the record does not have are skipped.  The fault that is
reported is the first one in the order of the text; fields that are missing are looked for when
the record ends.

A schema is for one kind of source `δ`: the tree of a text or a value.
-/

namespace QuantEnclosure.Json

/-- A field of a record `σ`: its name, whether it has to be there, and how its content changes the
record. -/
structure Field (δ σ : Type) where
  name : String
  needed : Bool
  read : δ → σ → Decoded σ

namespace Field

variable {δ σ β : Type}

def required (name : String) (content : δ → Decoded β) (set : σ → β → σ) : Field δ σ :=
  ⟨name, true, fun d r => (content d).map (set r)⟩

def optional (name : String) (content : δ → Decoded β) (set : σ → β → σ) : Field δ σ :=
  ⟨name, false, fun d r => (content d).map (set r)⟩

end Field

/-- How a record is read. -/
structure Schema (δ σ : Type) where
  /-- What is expected, in messages. -/
  expected : String
  /-- The record before any field is read. -/
  initial : σ
  fields : List (Field δ σ)

namespace Schema

variable {δ σ : Type}

def field? (s : Schema δ σ) (name : String) : Option (Field δ σ) :=
  s.fields.find? fun f => f.name == name

/-- Refuses a record that lacks a field which has to be there. -/
def complete (s : Schema δ σ) (seen : List String) (r : σ) : Decoded σ :=
  match s.fields.find? fun f => f.needed && !seen.contains f.name with
  | some f => .error (.missingField f.name)
  | none => .ok r

/-! ## From a text -/

/-- Reads the fields of an object in the order of the text. -/
def readFields (s : Schema Doc σ) (seen : List String) (r : σ) :
    List (List Nat × Doc) → Decoded (List String × σ)
  | [] => .ok (seen, r)
  | (units, d) :: rest =>
    match string? units with
    | none => .error .malformed
    | some name =>
      match s.field? name with
      | none => if d.intact then s.readFields seen r rest else .error .malformed
      | some f =>
        if seen.contains name then .error (.duplicateField name)
        else do
          let r ← f.read d r
          s.readFields (name :: seen) r rest

/-- Reads the items of a list as fields in their own order. -/
def readItems (closed : Bool) (r : σ) : List (Field Doc σ) → List Doc → Decoded σ
  | [], [] => if closed then .ok r else .error .malformed
  | [], _ :: _ => .error .malformed
  | f :: fs, [] => if f.needed then .error .malformed else readItems closed r fs []
  | f :: fs, d :: ds => do
    let r ← f.read d r
    readItems closed r fs ds

def read (s : Schema Doc σ) (d : Doc) : Decoded σ :=
  match d with
  | .object fields closed => do
    let (seen, r) ← s.readFields [] s.initial fields
    if closed then s.complete seen r else .error .malformed
  | .array items closed => readItems closed s.initial s.fields items
  | d => d.mistyped s.expected

/-- Reads a record from a text that holds nothing else. -/
def readText (s : Schema Doc σ) (text : String) : Decoded σ := do
  let (d, whole) := Doc.ofText text
  let r ← s.read d
  if whole then .ok r else .error .malformed

/-! ## From a value -/

/-- Reads the fields of an object in the order of the value. -/
def readEntries (s : Schema Value σ) (seen : List String) (r : σ) :
    List (String × Value) → Decoded (List String × σ)
  | [] => .ok (seen, r)
  | (name, v) :: rest =>
    match s.field? name with
    | none => s.readEntries seen r rest
    | some f => do
      let r ← f.read v r
      s.readEntries (name :: seen) r rest

/-- Reads the items of a list as the fields from the one with the given index on. -/
def readList (s : Schema Value σ) (index : Nat) (r : σ) :
    List (Field Value σ) → List Value → Decoded σ
  | [], [] => .ok r
  | [], rest => .error (.invalidLength (index + rest.length) "fewer elements in array")
  | f :: fs, [] =>
    if f.needed then
      .error (.invalidLength index s!"{s.expected} with {s.fields.length} elements")
    else s.readList (index + 1) r fs []
  | f :: fs, v :: vs => do
    let r ← f.read v r
    s.readList (index + 1) r fs vs

def readValue (s : Schema Value σ) (v : Value) : Decoded σ :=
  match v with
  | .object entries => do
    let (seen, r) ← s.readEntries [] s.initial entries
    s.complete seen r
  | .array items => s.readList 0 s.initial s.fields items
  | v => v.mistyped s.expected

end Schema

end QuantEnclosure.Json
