import ModuleGraph.Text.Blank

/-!
# Sections of a definition text

A definition text is a list of sections with named entries. A section's name, and the key of an
entry, do not tell small letters from capitals; the label of a section does.
-/

namespace ModuleGraph.Definitions

structure Entry where
  key : String
  /-- `none` for a key that stands alone. -/
  value : Option String
  deriving Repr, DecidableEq

structure Section where
  name : String
  label : Option String
  entries : List Entry
  deriving Repr, DecidableEq

namespace Section

def entriesOf (s : Section) (key : String) : List Entry :=
  s.entries.filter (Text.sameAscii ·.key key)

/-- All values of a key, in order; a key that stands alone has the empty value. -/
def values (s : Section) (key : String) : List String :=
  (s.entriesOf key).map (·.value.getD "")

def last? (s : Section) (key : String) : Option Entry := (s.entriesOf key).getLast?

def moduleName? (s : Section) : Option String :=
  if Text.sameAscii s.name "module" then s.label else none

end Section

end ModuleGraph.Definitions
