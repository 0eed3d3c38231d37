import ModuleGraph.Definitions.Reader
import ModuleGraph.Error
import ModuleGraph.Firsts
import ModuleGraph.Module
import ModuleGraph.Text.Quoted

/-!
# Module definitions

A snapshot of the definitions of a catalog. The sections of one module may lie anywhere in the text:
their paths and dependencies add up in text order, and of a flag the last section that sets it
decides. A module without a usable path does not exist. A nested module that names no dependency has
those of its parent.
-/

namespace ModuleGraph

structure Definitions where
  /-- Where the definitions come from, for error messages. -/
  source : String
  sections : List Definitions.Section
  deriving Repr, DecidableEq

namespace Definitions

def parse (source text : String) : Except CatalogError Definitions :=
  match readSectionList text.toList with
  | .ok ss => .ok ⟨source, ss⟩
  | .error fault => .error (.malformed source fault.text)

namespace Section

def paths (s : Section) : List String := (s.values "path").filterMap Path.normalize

def depends (s : Section) : List String :=
  ((s.values "depends").map Text.trim).filter (· ≠ "")

def truth? (word : String) : Option Bool :=
  let w := Text.lowerAscii (Text.trim word)
  if w ∈ ["true", "yes", "on", "1"] then some true
  else if w ∈ ["false", "no", "off", "0", ""] then some false
  else none

/-- A flag is set by a key that stands alone or by a word for truth; other words clear it. -/
def Entry.isSet (e : Entry) : Bool :=
  match e.value with
  | none => true
  | some v => (truth? v).getD false

/-- A flag after a section: as its last entry for the key says, else as before. -/
def flagAfter (s : Section) (key : String) (before : Bool) : Bool :=
  ((s.last? key).map Entry.isSet).getD before

/-- The mark of infrastructure after a section. A last `role` without a value says nothing. -/
def infrastructureAfter (s : Section) (before : Bool) : Bool :=
  match (s.last? "role").bind (·.value) with
  | some v => Text.sameAscii (Text.trim v) "infrastructure"
  | none => before

def flagsAfter (before : Flags) (s : Section) : Flags where
  readOnly := s.flagAfter "readonly" before.readOnly
  ownersOnly := s.flagAfter "ownersonly" before.ownersOnly
  infrastructure := s.infrastructureAfter before.infrastructure

/-- The module named by a section that declares a usable path. -/
def declared? (s : Section) : Option String := if s.paths = [] then none else s.moduleName?

end Section

/-- The names of all modules, in the order of the first section that declares a path of each. -/
def names (d : Definitions) : List String := firsts (d.sections.filterMap Section.declared?)

def sectionsOf (d : Definitions) (name : String) : List Section :=
  d.sections.filter (·.moduleName? = some name)

def ownPaths (d : Definitions) (name : String) : List String :=
  (d.sectionsOf name).flatMap Section.paths

def ownDepends (d : Definitions) (name : String) : List String :=
  (d.sectionsOf name).flatMap Section.depends

def ownFlags (d : Definitions) (name : String) : Flags :=
  (d.sectionsOf name).foldl Section.flagsAfter {}

def own? (d : Definitions) (name : String) : Option Module :=
  if d.ownPaths name = [] then none
  else some
    { name, paths := d.ownPaths name, dependsOn := d.ownDepends name, flags := d.ownFlags name }

/-- Gives a module without dependencies those of its parent. -/
def inherit (m : Module) (parent : Option Module) : Module :=
  match parent with
  | none => m
  | some p =>
    if p.dependsOn = [] then m else { m with dependsOn := p.dependsOn, inheritedDepends := true }

def load (d : Definitions) (name : String) : Option Module :=
  match d.own? name with
  | none => none
  | some m =>
    if m.dependsOn = [] then
      match _ : parentName? name with
      | none => some m
      | some parent => some (inherit m (d.load parent))
    else some m
termination_by name.length
decreasing_by exact length_lt_of_parentName? ‹parentName? _ = some _›

/-- Source and module names on one line. -/
def summary (d : Definitions) : String :=
  s!"Definitions \x7b source: {Text.quote d.source}, modules: " ++
    "[" ++ ", ".intercalate (d.names.map Text.quote) ++ "] \x7d"

theorem load_isSome (d : Definitions) (name : String) :
    (d.load name).isSome = (d.own? name).isSome := by
  unfold load
  split
  · simp [*]
  · simp only [*, Option.isSome_some]
    split
    · split <;> rfl
    · rfl

theorem name_of_own? {d : Definitions} {name : String} {m : Module} (h : d.own? name = some m) :
    m.name = name := by
  simp only [own?, Option.ite_none_left_eq_some, Option.some.injEq] at h
  rw [← h.2]

@[simp] theorem name_inherit (m : Module) (p : Option Module) : (inherit m p).name = m.name := by
  unfold inherit
  split
  · rfl
  · split <;> rfl

theorem name_of_load {d : Definitions} {name : String} {m : Module} (h : d.load name = some m) :
    m.name = name := by
  unfold load at h
  split at h
  · exact absurd h (by simp)
  · rename_i m' hm
    have hn := name_of_own? hm
    split at h
    · split at h <;> simp only [Option.some.injEq] at h <;> rw [← h] <;> simp [hn]
    · simp only [Option.some.injEq] at h
      rw [← h, hn]

end Definitions

end ModuleGraph
