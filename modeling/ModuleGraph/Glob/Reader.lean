import ModuleGraph.Decimal.Reader
import ModuleGraph.Glob.Token

/-!
# Reading globs

`{a,b}` lists alternatives, `<a:1,3>` repeats, `[a-z]` and `[!a-z]` are character classes, and a
backslash makes a special character literal. `(?i)` and `(?-i)` before a token turn case folding of
literals on and off for all that follows, whatever group it stands in. A `**` takes a whole
component: it stands at the start of a glob or branch or behind a `/`, and at its end or before one.
-/

namespace ModuleGraph.Glob

/-- Where a list of tokens has to end. -/
inductive Stop
  | atEnd
  | inBranch
  | inBody
  deriving DecidableEq

def Stop.holds : Stop → List Char → Bool
  | atEnd, s => s.isEmpty
  | inBranch, c :: _ => c == ',' || c == '\x7d'
  | inBody, c :: _ => c == ':' || c == '>'
  | _, [] => false

def isSpecial (c : Char) : Bool := "/?*$:<>()[]\x7b\x7d,\\".contains c

/-- Special characters that a backslash makes literal. -/
def isQuotable (c : Char) : Bool := isSpecial c && c != '/'

/-- The rest of a literal. There is none if a backslash stands before another character. -/
def readLiteral? : List Char → Option (List Char × List Char)
  | '\\' :: c :: s => if isQuotable c then (readLiteral? s).map fun v => (c :: v.1, v.2) else none
  | c :: s =>
    if c = '\\' then none
    else if isSpecial c then some ([], c :: s)
    else (readLiteral? s).map fun v => (c :: v.1, v.2)
  | [] => some ([], [])

/-- The switches between `(?` and `)`; the last one counts. -/
def readSwitches? : List Char → Option (Bool × List Char)
  | 'i' :: s => match s with
    | ')' :: r => some (true, r)
    | _ => readSwitches? s
  | '-' :: 'i' :: s => match s with
    | ')' :: r => some (false, r)
    | _ => readSwitches? s
  | _ => none

/-- Takes all switches that stand here, at most `n` of them. -/
def skipSwitches (anyCase : Bool) : Nat → List Char → Bool × List Char
  | n + 1, '(' :: '?' :: s =>
    match readSwitches? s with
    | some (on, r) => skipSwitches on n r
    | none => (anyCase, '(' :: '?' :: s)
  | _, s => (anyCase, s)

def takeSwitches (anyCase : Bool) (s : List Char) : Bool × List Char :=
  skipSwitches anyCase s.length s

def readClassChar? : List Char → Option (Char × List Char)
  | '\\' :: c :: s => if c = '[' ∨ c = ']' ∨ c = '-' then some (c, s) else none
  | c :: s => if c = '[' ∨ c = ']' ∨ c = '-' ∨ c = '\\' then none else some (c, s)
  | [] => none

def readRange? (s : List Char) : Option ((Char × Char) × List Char) :=
  match readClassChar? s with
  | none => none
  | some (a, r) =>
    match r with
    | '-' :: t =>
      match readClassChar? t with
      | some (b, u) => some ((a, b), u)
      | none => some ((a, a), r)
    | _ => some ((a, a), r)

/-- The members of a class, at most `n` of them. -/
def readRanges : Nat → List Char → List (Char × Char) × List Char
  | 0, s => ([], s)
  | n + 1, s =>
    match readRange? s with
    | some (x, r) => let v := readRanges n r; (x :: v.1, v.2)
    | none => ([], s)

def readClass? (s : List Char) : Option (Token × List Char) :=
  let (negated, t) := match s with
    | '!' :: t => (true, t)
    | _ => (false, s)
  match readRanges t.length t with
  | ([], _) => none
  | (xs, ']' :: r) => some (.oneOf negated xs, r)
  | _ => none

/-- A count; it fits 64 bits. -/
def readCount? (s : List Char) : Option (Nat × List Char) :=
  match s.takeWhile Char.isDigit with
  | [] => none
  | ds =>
    let n := Decimal.digitsValue ds
    if Decimal.fitsUnsigned n then some (n, s.dropWhile Char.isDigit) else none

/-- What closes a repetition: its bounds, if it has any, and `>`. A `:` alone asks for one time or
more. -/
def readBounds? : List Char → Option ((Nat × Option Nat) × List Char)
  | '>' :: s => some ((0, none), s)
  | ':' :: '>' :: s => some ((1, none), s)
  | ':' :: s =>
    match readCount? s with
    | none => none
    | some (n, r) =>
      match r with
      | '>' :: t => some ((n, some n), t)
      | ',' :: '>' :: t => some ((n, none), t)
      | ',' :: t =>
        match readCount? t with
        | some (m, '>' :: u) => some ((n, some m), u)
        | _ => none
      | _ => none
  | _ => none

/-- The rest after `**` and the `/` or end that has to follow it. -/
def readTreeEnd? (stop : Stop) (anyCase : Bool) (s : List Char) : Option (Bool × List Char) :=
  match takeSwitches anyCase s with
  | (on, '/' :: r) => some (on, r)
  | _ => if stop.holds s then some (anyCase, s) else none

/-- A `*` or `$` does not stand before another one. -/
def manyMayEnd (stop : Stop) (s : List Char) : Bool :=
  match (takeSwitches false s).2 with
  | c :: _ => c != '*' && c != '$'
  | [] => stop.holds s

/-- What stands after a `/`: a `**`, or something else. -/
def readSlash (stop : Stop) (anyCase : Bool) (s : List Char) : Token × Bool × List Char :=
  match takeSwitches anyCase s with
  | (on, '*' :: '*' :: r) =>
    match readTreeEnd? stop on r with
    | some (on, t) => (.tree true, on, t)
    | none => (.separator, anyCase, s)
  | _ => (.separator, anyCase, s)

/-- What stands after a `*`, which may be a `**` where a glob or branch begins. -/
def readStar? (stop : Stop) (atStart anyCase : Bool) (s : List Char) :
    Option (Token × Bool × List Char) :=
  let tree := match atStart, s with
    | true, '*' :: r => (readTreeEnd? stop anyCase r).map fun v => (Token.tree false, v)
    | _, _ => none
  match tree with
  | some v => some v
  | none => if manyMayEnd stop s then some (.many, anyCase, s) else none

mutual

/-- Reads tokens as far as they go; there is at least one where a glob or branch begins. `fuel`
bounds the number of steps. -/
def readTokens? : Nat → Stop → Bool → Bool → List Char → Option (List Token × Bool × List Char)
  | 0, _, _, _, _ => none
  | fuel + 1, stop, atStart, anyCase, s =>
    let f := takeSwitches anyCase s
    match readToken? fuel stop (atStart && f.2.length == s.length) f.1 f.2 with
    | none => if atStart then none else some ([], anyCase, s)
    | some (t, on, r) => (readTokens? fuel stop false on r).map fun v => (t :: v.1, v.2)

def readToken? : Nat → Stop → Bool → Bool → List Char → Option (Token × Bool × List Char)
  | 0, _, _, _, _ => none
  | fuel + 1, stop, atStart, anyCase, s =>
    match s with
    | [] => none
    | '<' :: r =>
      match readTokens? fuel .inBody true anyCase r with
      | none => none
      | some (body, on, t) =>
        (readBounds? t).map fun v => (.repetition body v.1.1 v.1.2, on, v.2)
    | '\x7b' :: r =>
      (readBranches? fuel anyCase r).map fun v => (.alternative v.1, v.2)
    | '?' :: r => some (.one, anyCase, r)
    | '*' :: r => readStar? stop atStart anyCase r
    | '$' :: r => if manyMayEnd stop r then some (.many, anyCase, r) else none
    | '[' :: r => (readClass? r).map fun v => (v.1, anyCase, v.2)
    | '/' :: r => some (readSlash stop anyCase r)
    | s =>
      match readLiteral? s with
      | some (c :: cs, r) => some (.literal (c :: cs) anyCase, anyCase, r)
      | _ => none

def readBranches? : Nat → Bool → List Char → Option (List (List Token) × Bool × List Char)
  | 0, _, _ => none
  | fuel + 1, anyCase, s =>
    match readTokens? fuel .inBranch true anyCase s with
    | none => none
    | some (b, on, r) =>
      match r with
      | ',' :: t => (readBranches? fuel on t).map fun v => (b :: v.1, v.2)
      | '\x7d' :: t => some ([b], on, t)
      | _ => none

end

/-- The tokens of a pattern. The empty pattern has none. -/
def readPattern? (s : List Char) : Option (List Token) :=
  if s = [] then some []
  else
    match readTokens? (2 * s.length + 2) .atEnd true false s with
    | some (ts, _, []) => some ts
    | _ => none

end ModuleGraph.Glob
