import ModuleGraph.Definitions
import ModuleGraph.Glob

/-!
# Selecting modules

A pattern selects the listed name it equals, if there is one, and else the listed names it matches
as a glob. Several patterns select, in turn, what each of them selects, every name once.
-/

namespace ModuleGraph

namespace Selection

/-- What decides which names a pattern matches, if it is a pattern. -/
abbrev Matcher := String → Except String (String → Bool)

/-- The names that one pattern selects, in the order listed. -/
def ofPattern (matcher : Matcher) (names : List String) (pattern : String) :
    Except CatalogError (List String) :=
  if pattern ∈ names then .ok (names.filter (· = pattern))
  else
    match matcher pattern with
    | .error reason => .error (.invalidPattern pattern reason)
    | .ok isMatch => .ok (names.filter isMatch)

def ofEach (matcher : Matcher) (names : List String) :
    List String → Except CatalogError (List (List String))
  | [] => .ok []
  | p :: ps =>
    match ofPattern matcher names p with
    | .error e => .error e
    | .ok selected => (ofEach matcher names ps).map (selected :: ·)

/-- The names that some patterns select, each once, or the first pattern that is none. -/
def select (matcher : Matcher) (names patterns : List String) : Except CatalogError (List String) :=
  (ofEach matcher names patterns).map fun each => firsts each.flatten

def globMatcher : Matcher := fun pattern =>
  match Glob.compile pattern with
  | .ok shape => .ok fun name => shape.accepts name.toList
  | .error fault => .error fault.text

end Selection

def Definitions.matching (d : Definitions) (patterns : List String) :
    Except CatalogError (List String) :=
  Selection.select Selection.globMatcher d.names patterns

end ModuleGraph
