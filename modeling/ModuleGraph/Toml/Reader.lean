import ModuleGraph.Text.Utf8
import ModuleGraph.Toml.Date
import ModuleGraph.Toml.Number
import ModuleGraph.Toml.Text
import ModuleGraph.Toml.Tree

/-!
# Reading TOML

`Toml.parse?` reads a document, one statement a line. Arrays and inline tables may run over several
lines and have a comma behind their last member.
-/

namespace ModuleGraph.Toml

open Text (isInlineBlank dropInlineBlanks)

/-- The text from the end of a comment's line on. A control character spoils the comment. -/
def readComment? : List Char → Option (List Char)
  | [] => some []
  | '\n' :: s => some ('\n' :: s)
  | '\r' :: '\n' :: s => some ('\n' :: s)
  | c :: s => if isControl c then none else readComment? s

/-- The text behind the end of a line on which nothing but blanks and a comment is left. -/
def readLineEnd? (s : List Char) : Option (List Char) := do
  let r ← match dropInlineBlanks s with
    | '#' :: t => readComment? t
    | t => some t
  match r with
  | [] => some []
  | '\n' :: t => some t
  | '\r' :: '\n' :: t => some t
  | _ => none

/-- Leaves out blanks, line ends and comments, given a bound on the number of lines. -/
def skipFiller? : Nat → List Char → Option (List Char)
  | 0, _ => none
  | fuel + 1, s =>
    match dropInlineBlanks s with
    | '#' :: t => (readComment? t).bind (skipFiller? fuel)
    | '\n' :: t => skipFiller? fuel t
    | '\r' :: '\n' :: t => skipFiller? fuel t
    | t => some t

def filler? (s : List Char) : Option (List Char) := skipFiller? (s.length + 1) s

def isBareKeyChar (c : Char) : Bool := c.isAlphanum || c == '_' || c == '-'

/-- One key: a bare word or a text on one line. -/
def readKey? (s : List Char) : Option (String × List Char) :=
  match s.takeWhile isBareKeyChar with
  | [] => (readShort? s).map fun v => (String.ofList v.1, v.2)
  | k => some (String.ofList k, s.dropWhile isBareKeyChar)

/-- Keys with points between them: the path and the last key. -/
def readKeys? : Nat → List Char → Option ((List String × String) × List Char)
  | 0, _ => none
  | fuel + 1, s =>
    match readKey? (dropInlineBlanks s) with
    | none => none
    | some (k, r) =>
      match dropInlineBlanks r with
      | '.' :: t => (readKeys? fuel t).map fun v => ((k :: v.1.1, v.1.2), v.2)
      | t => some (([], k), t)

def dottedKey? (s : List Char) : Option ((List String × String) × List Char) :=
  readKeys? (s.length + 1) s

def isWordEnd (c : Char) : Bool :=
  isInlineBlank c || c == '\n' || c == '\r' || c == ',' || c == ']' || c == '\x7d' || c == '#' ||
    c == '=' || c == '[' || c == '\x7b' || c == '"' || c == '\''

/-- A word, or two if the first is a date and the second may be its time. -/
def takeWord (s : List Char) : List Char × List Char :=
  let word := s.takeWhile (!isWordEnd ·)
  let rest := s.dropWhile (!isWordEnd ·)
  match Date.readDate? word, rest with
  | some (_, []), ' ' :: c :: t =>
    if c.isDigit then
      (word ++ ' ' :: (c :: t).takeWhile (!isWordEnd ·), (c :: t).dropWhile (!isWordEnd ·))
    else (word, rest)
  | _, _ => (word, rest)

def ofWord? (word : List Char) : Option Toml :=
  if word = "true".toList then some (.bool true)
  else if word = "false".toList then some (.bool false)
  else
    ((integer? word).map .int <|> (float? word).map .float) <|>
      (Date.normal? word).map fun d => .text (String.ofList d)

mutual

/-- Reads a value, given a bound on the number of steps. -/
def readValue? : Nat → List Char → Option (Toml × List Char)
  | 0, _ => none
  | fuel + 1, s =>
    match s with
    | '[' :: r => (readItems? fuel r).map fun v => (array v.1, v.2)
    | '\x7b' :: r => do
      let (es, r) ← readFields? fuel r
      let t ← ofEntries? es
      some (t, r)
    | '"' :: _ => (readText? s).map fun v => (text (String.ofList v.1), v.2)
    | '\'' :: _ => (readText? s).map fun v => (text (String.ofList v.1), v.2)
    | _ => (ofWord? (takeWord s).1).map (·, (takeWord s).2)

def readItems? : Nat → List Char → Option (List Toml × List Char)
  | 0, _ => none
  | fuel + 1, s =>
    match filler? s with
    | none => none
    | some (']' :: r) => some ([], r)
    | some t =>
      match readValue? fuel t with
      | none => none
      | some (v, r) =>
        match filler? r with
        | some (',' :: r) => (readItems? fuel r).map fun w => (v :: w.1, w.2)
        | some (']' :: r) => some ([v], r)
        | _ => none

def readFields? : Nat → List Char → Option (List (List String × String × Toml) × List Char)
  | 0, _ => none
  | fuel + 1, s =>
    match filler? s with
    | none => none
    | some ('\x7d' :: r) => some ([], r)
    | some t =>
      match dottedKey? t with
      | some ((path, name), '=' :: r) =>
        match readValue? fuel (dropInlineBlanks r) with
        | none => none
        | some (v, r) =>
          match filler? r with
          | some (',' :: r) => (readFields? fuel r).map fun w => ((path, name, v) :: w.1, w.2)
          | some ('\x7d' :: r) => some ([(path, name, v)], r)
          | _ => none
      | _ => none

end

def readStatement? (s : List Char) : Option (Statement × List Char) :=
  match s with
  | '[' :: '[' :: t =>
    match dottedKey? t with
    | some ((path, name), ']' :: ']' :: r) => some (.series path name, r)
    | _ => none
  | '[' :: t =>
    match dottedKey? t with
    | some ((path, name), ']' :: r) => some (.table path name, r)
    | _ => none
  | _ =>
    match dottedKey? s with
    | some ((path, name), '=' :: r) =>
      (readValue? (2 * r.length + 2) (dropInlineBlanks r)).map fun v => (.entry path name v.1, v.2)
    | _ => none

/-- Reads the lines of a document, given a bound on their number. -/
def readStatements? : Nat → List Char → Option (List Statement)
  | 0, _ => none
  | fuel + 1, s =>
    match readLineEnd? s with
    | some [] => some []
    | some r => readStatements? fuel r
    | none => do
      let (st, r) ← readStatement? (dropInlineBlanks s)
      let r ← readLineEnd? r
      let ss ← readStatements? fuel r
      some (st :: ss)

def parse? (text : String) : Option Toml :=
  let s := Text.dropByteOrderMark text.toList
  (readStatements? (s.length + 2) s).bind ofStatements?

end ModuleGraph.Toml
