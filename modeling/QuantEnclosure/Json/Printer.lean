import QuantEnclosure.Json.Value

/-!
JSON values as text on several lines: every item and every field stands on a line of its own,
two spaces deeper than what holds it.
-/

namespace QuantEnclosure.Json

def hexPair (n : Nat) : List Char :=
  let ds := Nat.toDigits 16 n
  List.replicate (2 - ds.length) '0' ++ ds

def escapeChar (c : Char) : List Char :=
  if c == '"' then ['\\', '"']
  else if c == '\\' then ['\\', '\\']
  else if c == '\n' then ['\\', 'n']
  else if c == '\r' then ['\\', 'r']
  else if c == '\t' then ['\\', 't']
  else if c.toNat = 8 then ['\\', 'b']
  else if c.toNat = 12 then ['\\', 'f']
  else if c.toNat < 0x20 then ['\\', 'u', '0', '0'] ++ hexPair c.toNat
  else [c]

def stringText (s : String) : List Char := '"' :: s.toList.flatMap escapeChar ++ ['"']

def newline (depth : Nat) : List Char := '\n' :: List.replicate (2 * depth) ' '

namespace Value

mutual

def pretty (depth : Nat) : Value → List Char
  | null => ['n', 'u', 'l', 'l']
  | bool true => ['t', 'r', 'u', 'e']
  | bool false => ['f', 'a', 'l', 's', 'e']
  | number n => n.text.toList
  | string s => stringText s
  | array [] => ['[', ']']
  | array (v :: vs) =>
    '[' :: newline (depth + 1) ++ pretty (depth + 1) v ++ prettyItems (depth + 1) vs ++
      newline depth ++ [']']
  | object [] => ['\x7b', '\x7d']
  | object ((k, v) :: fs) =>
    '\x7b' :: newline (depth + 1) ++ stringText k ++ [':', ' '] ++ pretty (depth + 1) v ++
      prettyFields (depth + 1) fs ++ newline depth ++ ['\x7d']

def prettyItems (depth : Nat) : List Value → List Char
  | [] => []
  | v :: vs => ',' :: newline depth ++ pretty depth v ++ prettyItems depth vs

def prettyFields (depth : Nat) : List (String × Value) → List Char
  | [] => []
  | (k, v) :: fs =>
    ',' :: newline depth ++ stringText k ++ [':', ' '] ++ pretty depth v ++ prettyFields depth fs

end

def toText (v : Value) : String := String.ofList (v.pretty 0)

end Value

end QuantEnclosure.Json
