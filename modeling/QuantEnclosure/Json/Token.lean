import QuantEnclosure.Json.Number

/-!
The tokens of a JSON text.  The text is read one character at a time by a machine with finitely
many kinds of state, so that every text has tokens; a text that breaks the rules of JSON ends in
the token `invalid` where it does so.
-/

namespace QuantEnclosure.Json

inductive Token where
  | openBrace
  | closeBrace
  | openBracket
  | closeBracket
  | colon
  | comma
  | null
  | bool (value : Bool)
  | number (numeral : Numeral)
  /-- The code points of a string; an escape can also name half of a surrogate pair. -/
  | string (units : List Nat)
  /-- Nothing after this point can be read. -/
  | invalid
  deriving DecidableEq, Repr

namespace Token

/-- The part of a numeral that is being read. -/
inductive Part where
  | sign
  | zero
  | whole
  | point
  | fraction
  | mark
  | markSign
  | exponent
  deriving DecidableEq, Repr

/-- What has been read of the current token. -/
inductive State where
  | between
  /-- The rest of a keyword, and its token. -/
  | word (rest : List Char) (token : Token)
  /-- Digits are kept in reverse. -/
  | numeral (part : Part) (read : Numeral)
  /-- Units are kept in reverse. -/
  | string (units : List Nat)
  | escape (units : List Nat)
  /-- A unit with `missing` digits to come. -/
  | hex (units : List Nat) (missing value : Nat)
  | stopped
  deriving Repr

def isSpace (c : Char) : Bool := c == ' ' || c == '\t' || c == '\n' || c == '\r'

def digit? (c : Char) : Option Nat := if c.isDigit then some (c.toNat - '0'.toNat) else none

def hexDigit? (c : Char) : Option Nat :=
  if c.isDigit then some (c.toNat - '0'.toNat)
  else if 'a' ≤ c ∧ c ≤ 'f' then some (c.toNat - 'a'.toNat + 10)
  else if 'A' ≤ c ∧ c ≤ 'F' then some (c.toNat - 'A'.toNat + 10)
  else none

def escaped? (c : Char) : Option Char :=
  if c == '"' then some '"'
  else if c == '\\' then some '\\'
  else if c == '/' then some '/'
  else if c == 'b' then some '\x08'
  else if c == 'f' then some '\x0c'
  else if c == 'n' then some '\n'
  else if c == 'r' then some '\r'
  else if c == 't' then some '\t'
  else none

/-- The first character of a token. -/
def begin (c : Char) : List Token × State :=
  if isSpace c then ([], .between)
  else if c == '\x7b' then ([.openBrace], .between)
  else if c == '\x7d' then ([.closeBrace], .between)
  else if c == '[' then ([.openBracket], .between)
  else if c == ']' then ([.closeBracket], .between)
  else if c == ':' then ([.colon], .between)
  else if c == ',' then ([.comma], .between)
  else if c == '"' then ([], .string [])
  else if c == 'n' then ([], .word ['u', 'l', 'l'] .null)
  else if c == 't' then ([], .word ['r', 'u', 'e'] (.bool true))
  else if c == 'f' then ([], .word ['a', 'l', 's', 'e'] (.bool false))
  else if c == '-' then ([], .numeral .sign ⟨true, [], [], none⟩)
  else match digit? c with
    | some 0 => ([], .numeral .zero ⟨false, [0], [], none⟩)
    | some d => ([], .numeral .whole ⟨false, [d], [], none⟩)
    | none => ([.invalid], .stopped)

/-- Puts a digit before those of the exponent. -/
def addExponent (n : Numeral) (d : Nat) : Numeral :=
  { n with exponent := n.exponent.map fun (s, ds) => (s, d :: ds) }

/-- The token of a numeral whose digits are in reverse. -/
def ofReversed (n : Numeral) : Token :=
  .number ⟨n.negative, n.whole.reverse, n.fraction.reverse,
    n.exponent.map fun (s, ds) => (s, ds.reverse)⟩

/-- The next part of a numeral, if `c` goes on with it. -/
def extend? (part : Part) (n : Numeral) (c : Char) : Option (Part × Numeral) :=
  match part, digit? c with
  | .sign, some 0 => some (.zero, { n with whole := [0] })
  | .sign, some d => some (.whole, { n with whole := [d] })
  | .whole, some d => some (.whole, { n with whole := d :: n.whole })
  | .point, some d | .fraction, some d => some (.fraction, { n with fraction := d :: n.fraction })
  | .mark, some d | .markSign, some d | .exponent, some d => some (.exponent, addExponent n d)
  | .zero, none | .whole, none =>
    if c == '.' then some (.point, n)
    else if c == 'e' || c == 'E' then some (.mark, { n with exponent := some (false, []) })
    else none
  | .fraction, none =>
    if c == 'e' || c == 'E' then some (.mark, { n with exponent := some (false, []) }) else none
  | .mark, none =>
    if c == '+' then some (.markSign, n)
    else if c == '-' then some (.markSign, { n with exponent := some (true, []) })
    else none
  | _, _ => none

/-- Whether a numeral can end after `part` with `next` behind it. -/
def ends (part : Part) (next : Option Char) : Bool :=
  match part with
  | .zero => (next.bind digit?).isNone
  | .whole | .fraction | .exponent => true
  | _ => false

/-- One character: the tokens that it completes, and what is read next. -/
def step (s : State) (c : Char) : List Token × State :=
  match s with
  | .between => begin c
  | .stopped => ([], .stopped)
  | .word [] t =>
    let (ts, s) := begin c
    (t :: ts, s)
  | .word (x :: rest) t => if c == x then ([], .word rest t) else ([.invalid], .stopped)
  | .numeral part n =>
    match extend? part n c with
    | some (part, n) => ([], .numeral part n)
    | none =>
      if ends part (some c) then
        let (ts, s) := begin c
        (ofReversed n :: ts, s)
      else ([.invalid], .stopped)
  | .string units =>
    if c == '"' then ([.string units.reverse], .between)
    else if c == '\\' then ([], .escape units)
    else if c.toNat < 0x20 then ([.invalid], .stopped)
    else ([], .string (c.toNat :: units))
  | .escape units =>
    if c == 'u' then ([], .hex units 3 0)
    else match escaped? c with
      | some e => ([], .string (e.toNat :: units))
      | none => ([.invalid], .stopped)
  | .hex units missing value =>
    match hexDigit? c with
    | none => ([.invalid], .stopped)
    | some d =>
      let value := value * 16 + d
      match missing with
      | 0 => ([], .string (value :: units))
      | k + 1 => ([], .hex units k value)

def finish : State → List Token
  | .between | .stopped => []
  | .word [] t => [t]
  | .numeral part n => if ends part none then [ofReversed n] else [.invalid]
  | _ => [.invalid]

def run : State → List Char → List Token
  | s, [] => finish s
  | s, c :: cs =>
    let (ts, s) := step s c
    ts ++ run s cs

def ofText (text : String) : List Token := run .between text.toList

end Token

/-- The text of a list of code points, if every surrogate among them is one of a pair. -/
def textOfUnits? : List Nat → Option (List Char)
  | [] => some []
  | u :: rest =>
    if 0xD800 ≤ u ∧ u ≤ 0xDBFF then
      match rest with
      | v :: rest =>
        if 0xDC00 ≤ v ∧ v ≤ 0xDFFF then
          (textOfUnits? rest).map (Char.ofNat ((u - 0xD800) * 0x400 + (v - 0xDC00) + 0x10000) :: ·)
        else none
      | [] => none
    else if 0xDC00 ≤ u ∧ u ≤ 0xDFFF then none
    else (textOfUnits? rest).map (Char.ofNat u :: ·)

def string? (units : List Nat) : Option String := (textOfUnits? units).map String.ofList

end QuantEnclosure.Json
