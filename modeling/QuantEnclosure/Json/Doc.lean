import QuantEnclosure.Json.Token

/-!
The tree of a JSON text, up to the first place where the text breaks the rules of JSON.  Lists and
objects say whether they were closed, and a value that could not be read is `broken`; so a reader
that walks the tree meets the first fault of a text in the order of the text, be it a fault of
form or of content.
-/

namespace QuantEnclosure.Json

inductive Doc where
  | null
  | bool (value : Bool)
  | number (numeral : Numeral)
  | string (units : List Nat)
  | array (items : List Doc) (closed : Bool)
  | object (fields : List (List Nat × Doc)) (closed : Bool)
  /-- Here the text breaks the rules. -/
  | broken
  deriving Repr

namespace Doc

/-- A list or an object that waits for a value; what it holds already is in reverse. -/
inductive Frame where
  | items (done : List Doc)
  | fields (done : List (List Nat × Doc)) (key : List Nat)

/-- What the next token has to be. -/
inductive Phase where
  | value
  /-- A value, or the end of an empty list. -/
  | first
  /-- A key; the end of the object too if `empty`. -/
  | key (done : List (List Nat × Doc)) (empty : Bool)
  | colon (done : List (List Nat × Doc)) (key : List Nat)
  /-- The comma or the end after a value. -/
  | after (value : Doc)

/-- Puts a value into the list or object that waits for it, which ends there. -/
def Frame.fill (closed : Bool) (d : Doc) : Frame → Doc
  | items done => .array (d :: done).reverse closed
  | fields done key => .object ((key, d) :: done).reverse closed

/-- Leaves all open lists and objects unclosed. -/
def abandon (d : Doc) (frames : List Frame) : Doc := frames.foldl (Frame.fill false) d

def Phase.stop (stack : List Frame) : Phase → Doc
  | value => abandon broken stack
  | first => abandon broken stack
  | key done _ => abandon (object done.reverse false) stack
  | colon done k => abandon (object ((k, broken) :: done).reverse false) stack
  | after d => abandon d stack

/-- The token of a value that is neither a list nor an object. -/
def leaf? : Token → Option Doc
  | .null => some null
  | .bool b => some (bool b)
  | .number n => some (number n)
  | .string units => some (string units)
  | _ => none

/-- The phase and the open containers after the first token of a value. -/
def beginValue (stack : List Frame) (t : Token) : Option (Phase × List Frame) :=
  match t with
  | .openBracket => some (.first, .items [] :: stack)
  | .openBrace => some (.key [] true, stack)
  | t => (leaf? t).map fun d => (.after d, stack)

/-- The phase and the open containers after one more token, if it fits. -/
def next (p : Phase) (stack : List Frame) (t : Token) : Option (Phase × List Frame) :=
  match p with
  | .value => beginValue stack t
  | .first =>
    match t, stack with
    | .closeBracket, .items _ :: stack => some (.after (array [] true), stack)
    | t, stack => beginValue stack t
  | .key done empty =>
    match t with
    | .string k => some (.colon done k, stack)
    | .closeBrace => if empty then some (.after (object [] true), stack) else none
    | _ => none
  | .colon done k =>
    match t with
    | .colon => some (.value, .fields done k :: stack)
    | _ => none
  | .after d =>
    match t, stack with
    | .comma, .items done :: stack => some (.value, .items (d :: done) :: stack)
    | .comma, .fields done k :: stack => some (.key ((k, d) :: done) false, stack)
    | .closeBracket, .items done :: stack => some (.after ((Frame.items done).fill true d), stack)
    | .closeBrace, .fields done k :: stack =>
      some (.after ((Frame.fields done k).fill true d), stack)
    | _, _ => none

/-- The tree of a list of tokens, and whether nothing but that tree was written. -/
def build : Phase → List Frame → List Token → Doc × Bool
  | .after d, [], [] => (d, true)
  | p, stack, [] => (p.stop stack, false)
  | p, stack, t :: ts =>
    match next p stack t with
    | some (p, stack) => build p stack ts
    | none => (p.stop stack, false)

def ofText (text : String) : Doc × Bool := build .value [] (Token.ofText text)

mutual

/-- Whether the tree was read to its end. -/
def intact : Doc → Bool
  | broken => false
  | array items closed => closed && intactItems items
  | object fields closed => closed && intactFields fields
  | _ => true

def intactItems : List Doc → Bool
  | [] => true
  | d :: rest => intact d && intactItems rest

def intactFields : List (List Nat × Doc) → Bool
  | [] => true
  | (_, d) :: rest => intact d && intactFields rest

end

end Doc

end QuantEnclosure.Json
