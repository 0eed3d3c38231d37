import ModuleGraph.Text.Blank
import ModuleGraph.Text.Hexadecimal

/-!
# Texts of TOML

Texts between quotes. A single quote takes characters as they are, a double quote knows escapes; three
of either begin a text of several lines. Control characters but the tab may not stand in a text.
-/

namespace ModuleGraph.Toml

open Text (isInlineBlank)

def isControl (c : Char) : Bool := (c.toNat < 0x20 && c != '\t') || c == '\x7f'

def charOf? (ds : List Char) : Option Char := do
  let values ← ds.mapM Text.hexValue?
  let n := values.foldl (fun n d => n * 16 + d) 0
  if n.isValidChar then some (Char.ofNat n) else none

/-- A character by its number, of which `n` digits are due. -/
def readCharOf? (n : Nat) (s : List Char) : Option (Char × List Char) :=
  if (s.take n).length = n then (charOf? (s.take n)).map (·, s.drop n) else none

def readEscape? : List Char → Option (Char × List Char)
  | [] => none
  | c :: s =>
    match c with
    | '"' => some ('"', s)
    | '\\' => some ('\\', s)
    | 'b' => some ('\x08', s)
    | 't' => some ('\t', s)
    | 'n' => some ('\n', s)
    | 'f' => some ('\x0c', s)
    | 'r' => some ('\r', s)
    | 'e' => some ('\x1b', s)
    | 'x' => readCharOf? 2 s
    | 'u' => readCharOf? 4 s
    | 'U' => readCharOf? 8 s
    | _ => none

/-- The rest of a text on one line, given a bound on its length. -/
def readLine? (quote : Char) : Nat → List Char → Option (List Char × List Char)
  | 0, _ => none
  | _ + 1, [] => none
  | fuel + 1, c :: s =>
    if c = quote then some ([], s)
    else if c = '\\' ∧ quote = '"' then do
      let (e, r) ← readEscape? s
      let (cs, r) ← readLine? quote fuel r
      some (e :: cs, r)
    else if isControl c then none
    else (readLine? quote fuel s).map fun v => (c :: v.1, v.2)

/-- A line end in front of a text is left out. -/
def dropLineEnd : List Char → List Char
  | '\n' :: s => s
  | '\r' :: '\n' :: s => s
  | s => s

/-- The text behind a backslash that ends a line, from the next character that is no blank on. -/
def joinLines? (s : List Char) : Option (List Char) :=
  match s.dropWhile isInlineBlank with
  | '\n' :: t => some (t.dropWhile fun c => isInlineBlank c || c == '\n' || c == '\r')
  | '\r' :: '\n' :: t => some (t.dropWhile fun c => isInlineBlank c || c == '\n' || c == '\r')
  | _ => none

/-- The rest of a text of several lines, given a bound on its length. Three quotes end it; up to two
more right before them belong to the text. -/
def readLines? (quote : Char) : Nat → List Char → Option (List Char × List Char)
  | 0, _ => none
  | _ + 1, [] => none
  | fuel + 1, c :: s =>
    if c = quote then
      let more := (s.takeWhile (· == quote)).length
      if 2 ≤ more then
        let kept := min (more - 2) 2
        some (List.replicate kept quote, s.drop (2 + kept))
      else (readLines? quote fuel s).map fun v => (c :: v.1, v.2)
    else if c = '\\' ∧ quote = '"' then
      match joinLines? s with
      | some r => readLines? quote fuel r
      | none => do
        let (e, r) ← readEscape? s
        let (cs, r) ← readLines? quote fuel r
        some (e :: cs, r)
    else if c = '\n' then (readLines? quote fuel s).map fun v => (c :: v.1, v.2)
    else if c = '\r' then
      match s with
      | '\n' :: r => (readLines? quote fuel r).map fun v => ('\n' :: v.1, v.2)
      | _ => none
    else if isControl c then none
    else (readLines? quote fuel s).map fun v => (c :: v.1, v.2)

def readShort? : List Char → Option (List Char × List Char)
  | c :: s => if c = '"' ∨ c = '\'' then readLine? c (s.length + 1) s else none
  | [] => none

def readText? (s : List Char) : Option (List Char × List Char) :=
  match s with
  | '"' :: '"' :: '"' :: t => readLines? '"' (t.length + 1) (dropLineEnd t)
  | '\'' :: '\'' :: '\'' :: t => readLines? '\'' (t.length + 1) (dropLineEnd t)
  | _ => readShort? s

end ModuleGraph.Toml
