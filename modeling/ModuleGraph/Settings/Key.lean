import ModuleGraph.Decimal.Reader
import ModuleGraph.Settings.Value
import ModuleGraph.Text.Blank

/-!
# Setting keys

A key such as `catalog.file` or `list[2].name` is a path into the settings. Names in it consist of
ASCII letters, digits, `_` and `-`.
-/

namespace ModuleGraph.Settings.Key

open Text (isInlineBlank)

def isNameChar (c : Char) : Bool := c.isAlphanum || c == '_' || c == '-'

def readName? (s : List Char) : Option (Step × List Char) :=
  match s.takeWhile isNameChar with
  | [] => none
  | n => some (.field (String.ofList n), s.dropWhile isNameChar)

/-- An index with blanks around it, up to the closing bracket. -/
def readIndex? (s : List Char) : Option (Step × List Char) := do
  let t := s.dropWhile isInlineBlank
  let (negative, t) := match t with
    | '-' :: t => (true, t)
    | _ => (false, t)
  let n ← Decimal.digits? (t.takeWhile Char.isDigit)
  let index : Int := if negative then -n else n
  match (t.dropWhile Char.isDigit).dropWhile isInlineBlank with
  | ']' :: r => if Decimal.fitsSigned index then some (.item index, r) else none
  | _ => none

/-- The steps behind the first name, given a bound on their number. -/
def readSteps? : Nat → List Char → Option (List Step)
  | 0, _ => none
  | _ + 1, [] => some []
  | fuel + 1, '.' :: s => do
    let (step, r) ← readName? s
    let steps ← readSteps? fuel r
    some (step :: steps)
  | fuel + 1, '[' :: s => do
    let (step, r) ← readIndex? s
    let steps ← readSteps? fuel r
    some (step :: steps)
  | _ + 1, _ => none

def parse? (key : String) : Option (List Step) := do
  let (step, r) ← readName? key.toList
  let steps ← readSteps? (r.length + 1) r
  some (step :: steps)

/-- The path of a key, or, if it spells none, the field of that name. -/
def path (key : String) : List Step := (parse? key).getD [.field key]

end ModuleGraph.Settings.Key
