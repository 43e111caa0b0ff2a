import QuantEnclosure.Json.Doc

/-!
JSON values.  The fields of an object keep the order of the text; a key that is written again
keeps its first place and takes the later value.
-/

namespace QuantEnclosure.Json

inductive Value where
  | null
  | bool (value : Bool)
  | number (value : Number)
  | string (value : String)
  | array (items : List Value)
  | object (fields : List (String × Value))

namespace Value

def maxDepth : Nat := 127

/-- Sets a field, at the end if it is new. -/
def setField (key : String) (v : Value) : List (String × Value) → List (String × Value)
  | [] => [(key, v)]
  | (k, w) :: rest => if k = key then (k, v) :: rest else (k, w) :: setField key v rest

mutual

/-- The value of a tree that was read to its end, with at most `depth` levels. -/
def ofDoc? (depth : Nat) : Doc → Option Value
  | .null => some .null
  | .bool b => some (.bool b)
  | .number n => n.value?.map .number
  | .string units => (string? units).map .string
  | .array items closed =>
    if closed ∧ 0 < depth then (ofItems? (depth - 1) items).map .array else none
  | .object fields closed =>
    if closed ∧ 0 < depth then (ofFields? (depth - 1) [] fields).map .object else none
  | .broken => none

def ofItems? (depth : Nat) : List Doc → Option (List Value)
  | [] => some []
  | d :: rest =>
    match ofDoc? depth d with
    | none => none
    | some v => (ofItems? depth rest).map (v :: ·)

def ofFields? (depth : Nat) (done : List (String × Value)) :
    List (List Nat × Doc) → Option (List (String × Value))
  | [] => some done
  | (units, d) :: rest =>
    match string? units, ofDoc? depth d with
    | some key, some v => ofFields? depth (setField key v done) rest
    | _, _ => none

end

def ofText? (text : String) : Option Value :=
  let (d, whole) := Doc.ofText text
  if whole then ofDoc? maxDepth d else none

end Value

end QuantEnclosure.Json
