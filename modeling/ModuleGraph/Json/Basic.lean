import ModuleGraph.Decimal.Shortest
import ModuleGraph.Text.Hexadecimal

/-!
# JSON documents

Values and their indented text. Integers and other numbers are told apart, as they are in texts.
-/

namespace ModuleGraph

inductive Json
  | null
  | bool (b : Bool)
  | int (n : Int)
  | float (x : Decimal.Binary64)
  | string (s : String)
  | array (items : List Json)
  /-- Fields in the order written. -/
  | object (fields : List (String × Json))
  deriving Repr

namespace Json

def strings (xs : List String) : Json := array (xs.map string)

/-- The value of the last field of this name. -/
def field? (j : Json) (name : String) : Option Json :=
  match j with
  | object fields => (fields.reverse.find? (·.1 == name)).map (·.2)
  | _ => none

/-- A control character by its number, in four digits of base 16. -/
def escapeControl (c : Char) : List Char :=
  ['\\', 'u', '0', '0', Text.hexDigit (c.toNat / 16), Text.hexDigit (c.toNat % 16)]

def escapeChar (c : Char) : List Char :=
  if c = '"' then ['\\', '"']
  else if c = '\\' then ['\\', '\\']
  else if c = '\n' then ['\\', 'n']
  else if c = '\r' then ['\\', 'r']
  else if c = '\t' then ['\\', 't']
  else if c = '\x08' then ['\\', 'b']
  else if c = '\x0c' then ['\\', 'f']
  else if c.toNat < 0x20 then escapeControl c
  else [c]

def quoted (s : String) : List Char := '"' :: s.toList.flatMap escapeChar ++ ['"']

/-- A line end and `depth` steps of two blanks. -/
def newline (depth : Nat) : List Char := '\n' :: List.replicate (2 * depth) ' '

mutual

/-- The indented text of a value that stands `depth` steps in. -/
def prettyAt (depth : Nat) : Json → List Char
  | null => "null".toList
  | bool b => if b then "true".toList else "false".toList
  | int n => (toString n).toList
  | float x => x.pointedText.toList
  | string s => quoted s
  | array [] => ['[', ']']
  | array (j :: js) =>
    '[' :: newline (depth + 1) ++ prettyAt (depth + 1) j ++ prettyItems (depth + 1) js ++
      newline depth ++ [']']
  | object [] => ['\x7b', '\x7d']
  | object ((k, j) :: fs) =>
    '\x7b' :: newline (depth + 1) ++ quoted k ++ [':', ' '] ++ prettyAt (depth + 1) j ++
      prettyFields (depth + 1) fs ++ newline depth ++ ['\x7d']

/-- The items after the first. -/
def prettyItems (depth : Nat) : List Json → List Char
  | [] => []
  | j :: js => ',' :: newline depth ++ prettyAt depth j ++ prettyItems depth js

/-- The fields after the first. -/
def prettyFields (depth : Nat) : List (String × Json) → List Char
  | [] => []
  | (k, j) :: fs =>
    ',' :: newline depth ++ quoted k ++ [':', ' '] ++ prettyAt depth j ++ prettyFields depth fs

end

/-- The document as indented text, two blanks a step. -/
def pretty (j : Json) : String := String.ofList (prettyAt 0 j)

end Json

end ModuleGraph
