import ModuleGraph.Glob.Reader
import ModuleGraph.Glob.Rules
import ModuleGraph.Glob.Shape

/-!
# Globs

A glob selects names. `Glob.compile` reads a pattern, checks its rules and gives the shape of the
names it selects.
-/

namespace ModuleGraph.Glob

inductive Place
  | first
  | middle
  | last
  | only
  deriving Repr, DecidableEq

def slash : Shape := .char (.single '/' false)

/-- Any character but `/`. -/
def inComponent : Shape := .char (.except ['/'])

/-- Any number of characters of one line. -/
def anything : Shape := .star (.char (.except ['\n']))

/-- A `**` between other tokens: one `/`, or two with anything between. -/
def innerTree : Shape := .choice slash (.seqAll [slash, anything, slash])

/-- A `**` at its place in its list and, if the list is in a group, the place of the group. -/
def treeShape (outer : Option Place) (rooted : Bool) : Place → Shape
  | .only => anything
  | .middle => innerTree
  | .first =>
    if outer = some .middle ∨ outer = some .last then innerTree
    else if rooted then .seqAll [slash, anything, .opt slash]
    else .choice (.opt slash) (.seq anything slash)
  | .last =>
    if outer = some .first ∨ outer = some .middle then innerTree
    else .choice (.opt slash) (.seq slash anything)

/-- A class never holds `/`, and nothing at all if a range runs backwards. -/
def classShape (anyCase negated : Bool) (ranges : List (Char × Char)) : Shape :=
  if ranges.any fun r => r.2 < r.1 then .char .none
  else .char { ranges, negated, anyCase, excluded := ['/'] }

/-- Literals switch case folding for the classes behind them in their list. -/
def foldsAfter (anyCase : Bool) : Token → Bool
  | .literal _ on => on
  | _ => anyCase

def placeOf (before behind : Bool) : Place :=
  match before, behind with
  | false, false => .only
  | false, true => .first
  | true, true => .middle
  | true, false => .last

mutual

def Token.shape (outer : Option Place) (anyCase : Bool) (place : Place) : Token → Shape
  | .literal text on => .seqAll (text.map fun c => .char (.single c on))
  | .separator => slash
  | .one => inComponent
  | .many => .star inComponent
  | .tree rooted => treeShape outer rooted place
  | .oneOf negated ranges => classShape anyCase negated ranges
  | .alternative bs => .choiceAll (branchShapes (outer <|> some place) anyCase bs)
  | .repetition body lower upper =>
    .power (listShape (outer <|> some place) anyCase false body) lower upper

def listShape (outer : Option Place) (anyCase before : Bool) : List Token → Shape
  | [] => .empty
  | t :: ts =>
    .seq (t.shape outer anyCase (placeOf before !ts.isEmpty))
      (listShape outer (foldsAfter anyCase t) true ts)

def branchShapes (outer : Option Place) (anyCase : Bool) : List (List Token) → List Shape
  | [] => []
  | b :: bs => listShape outer anyCase false b :: branchShapes outer anyCase bs

end

namespace Shape

def stateCost : Nat := 32

def branchCost : Nat := 40

/-- The memory, in bytes, that an automaton for a set of characters takes: a set given by ranges has
a path for each range, any other set one for each length of an encoding. -/
def charCost (s : CharSet) : Nat :=
  match s.ranges, s.negated, s.anyCase with
  | [r], false, false => if r.1 = r.2 then stateCost * r.1.utf8Size else 2 * stateCost
  | rs, false, _ => stateCost + 16 * rs.length
  | _, _, _ => 12 * stateCost

/-- The memory, in bytes, that an automaton for a shape takes. A repetition is written out: its body
once for each time it has to be there, and once more with a branch for each time it may be. -/
def cost : Shape → Nat
  | empty => stateCost
  | char s => charCost s
  | seq a b => a.cost + b.cost
  | choice a b => branchCost + a.cost + b.cost
  | power a lower upper =>
    match upper with
    | none => (lower + 1) * a.cost + branchCost
    | some n => lower * a.cost + (n - lower) * (a.cost + branchCost)

def costLimit : Nat := 10485760

end Shape

def compile (pattern : String) : Except Fault Shape :=
  match readPattern? pattern.toList with
  | none => .error .unparsable
  | some ts =>
    match rulesFault? ts with
    | some f => .error f
    | none =>
      let shape := listShape none false false ts
      if Shape.costLimit < shape.cost then .error .oversizedProgram else .ok shape

end ModuleGraph.Glob
