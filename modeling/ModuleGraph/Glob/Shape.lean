import ModuleGraph.Text.Casing

/-!
# Shapes

A shape is a set of texts, built from single characters by sequence, choice and repetition.
`Shape.accepts` decides membership: `rests` follows all ways in which a text may begin with a member,
and gives what is left of the text for each.
-/

namespace ModuleGraph.Glob

/-- A set of characters: those in the ranges, or with `negated` the others. With `anyCase` a range
holds a character if it holds one that differs from it in case only. `excluded` are never in. -/
structure CharSet where
  ranges : List (Char × Char)
  negated : Bool := false
  anyCase : Bool := false
  excluded : List Char := []
  deriving Repr

namespace CharSet

def inRanges (s : CharSet) (c : Char) : Bool := s.ranges.any fun r => r.1 ≤ c && c ≤ r.2

def contains (s : CharSet) (c : Char) : Bool :=
  let found := if s.anyCase then s.inRanges c || (Text.caseVariants c).any s.inRanges
    else s.inRanges c
  !s.excluded.contains c && (found != s.negated)

def single (c : Char) (anyCase : Bool) : CharSet := { ranges := [(c, c)], anyCase }

def except (cs : List Char) : CharSet := { ranges := [], negated := true, excluded := cs }

def none : CharSet := { ranges := [] }

end CharSet

inductive Shape
  | empty
  | char (s : CharSet)
  | seq (a b : Shape)
  | choice (a b : Shape)
  | power (a : Shape) (lower : Nat) (upper : Option Nat)
  deriving Repr

namespace Shape

def seqAll : List Shape → Shape
  | [] => empty
  | [a] => a
  | a :: as => seq a (seqAll as)

/-- What matches none of these texts if there are none. -/
def choiceAll : List Shape → Shape
  | [] => char CharSet.none
  | [a] => a
  | a :: as => choice a (choiceAll as)

def star (a : Shape) : Shape := power a 0 none

def opt (a : Shape) : Shape := power a 0 (some 1)

/-- Joins two lists of endings of one text, each ending once. -/
def join (xs ys : List (List Char)) : List (List Char) :=
  xs ++ ys.filter fun y => !xs.any fun x => x.length == y.length

/-- All endings that a step leaves of the endings given, each once. -/
def advance (step : List Char → List (List Char)) : List (List Char) → List (List Char)
  | [] => []
  | s :: ss => join (step s) (advance step ss)

def iterate (step : List Char → List (List Char)) : Nat → List (List Char) → List (List Char)
  | 0, ss => ss
  | _ + 1, [] => []
  | n + 1, ss => iterate step n (advance step ss)

def iterateUpTo (step : List Char → List (List Char)) : Nat → List (List Char) → List (List Char)
  | 0, ss => ss
  | _ + 1, [] => []
  | n + 1, ss => join ss (iterateUpTo step n (advance step ss))

/-- What is left of a text for each way in which it begins with a text of the shape. More steps of a
repetition than the text has characters, and one, lead to no other ending. -/
def rests : Shape → List Char → List (List Char)
  | empty, s => [s]
  | char _, [] => []
  | char cs, c :: s => if cs.contains c then [s] else []
  | seq a b, s => advance b.rests (a.rests s)
  | choice a b, s => join (a.rests s) (b.rests s)
  | power a lower upper, s =>
    let bound := s.length + 1
    let more := match upper with
      | none => bound
      | some n => min bound (n - lower)
    iterateUpTo a.rests more (iterate a.rests (min bound lower) [s])

def accepts (a : Shape) (s : List Char) : Bool := (a.rests s).any List.isEmpty

end Shape

end ModuleGraph.Glob
