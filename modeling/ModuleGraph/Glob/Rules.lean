import ModuleGraph.Glob.Token
import ModuleGraph.Text.Casing

/-!
# Rules for globs

A pattern that can be read is a glob only if its tokens fit together: no two component boundaries
and no two `*` meet, no branch is a `**` alone, a branch begins with `/` only behind something, and
repetitions have sensible bounds and sizes. A group meets what stands beside it, and at its edge
what stands beside the group around it.
-/

namespace ModuleGraph.Glob

mutual

/-- `p` holds of a list of tokens that is, or lies in, this token. -/
def Token.anyList (p : List Token → Bool) : Token → Bool
  | .alternative bs => branchesAny p bs
  | .repetition body _ _ => p body || listAny p body
  | _ => false

def listAny (p : List Token → Bool) : List Token → Bool
  | [] => false
  | t :: ts => t.anyList p || listAny p ts

def branchesAny (p : List Token → Bool) : List (List Token) → Bool
  | [] => false
  | b :: bs => p b || listAny p b || branchesAny p bs

end

/-- `p` holds of the list or of a list inside it. -/
def everywhere (p : List Token → Bool) (ts : List Token) : Bool := p ts || listAny p ts

def boundariesMeet : List Token → Bool
  | [] => false
  | t :: ts => (t.isBoundary && ts.head?.any Token.isBoundary) || boundariesMeet ts

def badBounds : Token → Bool
  | .repetition _ lower (some upper) => upper < lower || upper == 0
  | _ => false

/-- What stands to the left and to the right of a group. -/
structure Beside where
  left : Option Token
  right : Option Token

namespace Beside

/-- The neighbours of a token: those in its own list, else those of the group around it. -/
def within (outer : Beside) (left right : Option Token) : Beside :=
  ⟨left <|> outer.left, right <|> outer.right⟩

def boundaryBefore (b : Beside) : Bool := b.left.any (Token.ends Token.isBoundary)

def boundaryAfter (b : Beside) : Bool := b.right.any (Token.begins Token.isBoundary)

def manyBefore (b : Beside) : Bool := b.left.any (Token.ends Token.isMany)

def manyAfter (b : Beside) : Bool := b.right.any (Token.begins Token.isMany)

end Beside

/-- What a branch or body must not be, given what stands beside its group. -/
def groupFault? (b : Beside) (first last : Token) (single : Bool) : Option Fault :=
  if first.isSeparator && b.boundaryBefore then some .adjacentBoundaries
  else if last.isSeparator && b.boundaryAfter then some .adjacentBoundaries
  else if single && first.isTree then some .singularTree
  else if first.isTree && b.boundaryBefore then some .adjacentBoundaries
  else if last.isTree && b.boundaryAfter then some .adjacentBoundaries
  else if first.isMany && b.manyBefore then some .adjacentMany
  else if last.isMany && b.manyAfter then some .adjacentMany
  else none

def branchFault? (b : Beside) (ts : List Token) : Option Fault :=
  match ts.head?, ts.getLast? with
  | some first, some last =>
    groupFault? b first last (ts.length == 1) <|>
      if first.isRoot && b.left.isNone then some .uncertainRoots else none
  | _, _ => none

def bodyFault? (b : Beside) (ts : List Token) (lower : Nat) : Option Fault :=
  match ts.head?, ts.getLast? with
  | some first, some last =>
    groupFault? b first last (ts.length == 1) <|>
      if first.isRoot && b.left.isNone && lower == 0 then some .uncertainRoots
      else if first.isBoundary && last.isBoundary then some .adjacentBoundaries
      else if ts.length == 1 && first.isMany then some .singularMany
      else if first.isMany && last.isMany then some .adjacentMany
      else none
  | _, _ => none

mutual

def Token.fault? (b : Beside) : Token → Option Fault
  | .alternative bs => branchesFault? b bs
  | .repetition body lower _ => bodyFault? b body lower <|> listFault? b none body
  | _ => none

/-- The first fault in a list, given what stands beside the list and the token before it. -/
def listFault? (outer : Beside) (before : Option Token) : List Token → Option Fault
  | [] => none
  | t :: ts => t.fault? (outer.within before ts.head?) <|> listFault? outer (some t) ts

def branchesFault? (b : Beside) : List (List Token) → Option Fault
  | [] => none
  | ts :: bs => branchFault? b ts <|> listFault? b none ts <|> branchesFault? b bs

end

def allEqual? : List (Option Nat) → Option Nat
  | [] => some 0
  | [x] => x
  | x :: xs => if allEqual? xs = x then x else none

mutual

/-- The size in bytes of all texts that a token matches, if it is one size and one text. -/
def Token.invariantSize? : Token → Option Nat
  | .literal text anyCase =>
    if anyCase && text.any Text.isCased then none else some (String.ofList text).utf8ByteSize
  | .separator => some 1
  | .oneOf negated ranges => if !negated && ranges.all fun r => r.1 == r.2 then some 4 else none
  | .alternative bs => allEqual? (branchSizes bs)
  | .repetition body lower upper =>
    if upper = some lower then (listSize? body).map (lower * ·) else none
  | _ => none

def listSize? : List Token → Option Nat
  | [] => some 0
  | t :: ts =>
    match t.invariantSize?, listSize? ts with
    | some m, some n => some (m + n)
    | _, _ => none

def branchSizes : List (List Token) → List (Option Nat)
  | [] => []
  | b :: bs => listSize? b :: branchSizes bs

end

/-- The size from which on a text that a token is sure to match is too large. -/
def sizeLimit : Nat := 65536

def isOversized (t : Token) : Bool := t.invariantSize?.any (sizeLimit ≤ ·)

def rulesFault? (ts : List Token) : Option Fault :=
  if everywhere boundariesMeet ts then some .adjacentBoundaries
  else if everywhere (·.any badBounds) ts then some .incompatibleBounds
  else
    listFault? ⟨none, none⟩ none ts <|>
      if everywhere (·.any isOversized) ts then some .oversizedInvariant else none

end ModuleGraph.Glob
