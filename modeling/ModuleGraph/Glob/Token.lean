/-!
# Glob tokens

A glob is a list of tokens. `?` stands for one character other than `/`, `*` and `$` for any number
of them, `**` for any number of whole path components.
-/

namespace ModuleGraph.Glob

inductive Token
  | literal (text : List Char) (anyCase : Bool)
  | separator
  | one
  | many
  /-- `**`; `rooted` when a `/` stands before it. -/
  | tree (rooted : Bool)
  /-- One character of the ranges, or one outside them. -/
  | oneOf (negated : Bool) (ranges : List (Char × Char))
  | alternative (branches : List (List Token))
  /-- The body from `lower` to `upper` times over. -/
  | repetition (body : List Token) (lower : Nat) (upper : Option Nat)
  deriving Repr

namespace Token

/-- A separator, or a wildcard that takes the separators beside it. -/
def isBoundary : Token → Bool
  | separator => true
  | tree _ => true
  | _ => false

def isSeparator : Token → Bool
  | separator => true
  | _ => false

def isTree : Token → Bool
  | tree _ => true
  | _ => false

def isMany : Token → Bool
  | many => true
  | _ => false

/-- A token with which an absolute path may begin. -/
def isRoot : Token → Bool
  | separator => true
  | tree rooted => rooted
  | _ => false

mutual

/-- The token, or a token that a branch or body of it begins with, satisfies `p`. -/
def begins (p : Token → Bool) (t : Token) : Bool :=
  p t || match t with
    | alternative bs => branchesBegin p bs
    | repetition body _ _ => listBegins p body
    | _ => false

def listBegins (p : Token → Bool) : List Token → Bool
  | [] => false
  | t :: _ => begins p t

def branchesBegin (p : Token → Bool) : List (List Token) → Bool
  | [] => false
  | b :: bs => listBegins p b || branchesBegin p bs

end

mutual

/-- The token, or a token that a branch or body of it ends with, satisfies `p`. -/
def ends (p : Token → Bool) (t : Token) : Bool :=
  p t || match t with
    | alternative bs => branchesEnd p bs
    | repetition body _ _ => listEnds p body
    | _ => false

def listEnds (p : Token → Bool) : List Token → Bool
  | [] => false
  | t :: ts => match ts with
    | [] => ends p t
    | _ :: _ => listEnds p ts

def branchesEnd (p : Token → Bool) : List (List Token) → Bool
  | [] => false
  | b :: bs => listEnds p b || branchesEnd p bs

end

end Token

inductive Fault
  | unparsable
  | uncertainRoots
  | singularTree
  | singularMany
  | adjacentBoundaries
  | adjacentMany
  | oversizedInvariant
  | incompatibleBounds
  | oversizedProgram
  deriving Repr, DecidableEq

namespace Fault

def malformed (what : String) : String := "malformed glob expression: " ++ what

def text : Fault → String
  | unparsable => "failed to parse glob expression"
  | uncertainRoots => malformed "uncertain or overlapping roots in branch"
  | singularTree => malformed "singular tree wildcard \x60**\x60 in branch"
  | singularMany => malformed "singular zero-or-more wildcard \x60*\x60 or \x60$\x60 in branch"
  | adjacentBoundaries => malformed "adjacent component boundaries \x60/\x60 or \x60**\x60"
  | adjacentMany => malformed "adjacent zero-or-more wildcards \x60*\x60 or \x60$\x60"
  | oversizedInvariant => malformed "oversized invariant expression"
  | incompatibleBounds => malformed "incompatible repetition bounds"
  | oversizedProgram => "failed to compile glob: oversized program"

end Fault

end ModuleGraph.Glob
