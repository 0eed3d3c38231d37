import ModuleGraph.Path

/-!
# Modules

A module is a named set of repository paths with the names of the modules it needs. Names nest at
`/`: the parent of `team/ui` is `team`.
-/

namespace ModuleGraph

/-- Permission and visibility marks of a module. -/
structure Flags where
  readOnly : Bool := false
  /-- Only the owners of the module may change its paths. -/
  ownersOnly : Bool := false
  /-- The module stays visible whichever module is worked on. -/
  infrastructure : Bool := false
  deriving Repr, DecidableEq

namespace Flags

def labels (f : Flags) : List String :=
  (if f.readOnly then ["ro"] else []) ++ (if f.ownersOnly then ["owners"] else []) ++
    (if f.infrastructure then ["infra"] else [])

/-- The three lowest bits of a number, from the lowest up; higher bits mean nothing. -/
def ofBits (n : Nat) : Flags := ⟨n.testBit 0, n.testBit 1, n.testBit 2⟩

def toBits (f : Flags) : Nat :=
  f.readOnly.toNat + 2 * f.ownersOnly.toNat + 4 * f.infrastructure.toNat

end Flags

/-- What precedes the last separator. -/
def parentChars? (name : List Char) : Option (List Char) :=
  match name.reverse.dropWhile (· != Path.separator) with
  | [] => none
  | _ :: s => some s.reverse

def parentName? (name : String) : Option String := (parentChars? name.toList).map String.ofList

theorem eq_append_of_parentChars? {name parent : List Char} (h : parentChars? name = some parent) :
    ∃ rest, name = parent ++ Path.separator :: rest := by
  unfold parentChars? at h
  have hsplit := List.takeWhile_append_dropWhile (p := (· != Path.separator)) (l := name.reverse)
  split at h
  · cases h
  · rename_i c s hs
    cases h
    have hc : c = Path.separator := by
      have hne : name.reverse.dropWhile (· != Path.separator) ≠ [] := by simp [hs]
      simpa [hs] using List.head_dropWhile_not (· != Path.separator) hne
    rw [hs, hc] at hsplit
    refine ⟨(name.reverse.takeWhile (· != Path.separator)).reverse, ?_⟩
    simpa using (congrArg List.reverse hsplit).symm

theorem length_lt_of_parentChars? {name parent : List Char} (h : parentChars? name = some parent) :
    parent.length < name.length := by
  obtain ⟨rest, rfl⟩ := eq_append_of_parentChars? h
  simp

theorem length_lt_of_parentName? {name parent : String} (h : parentName? name = some parent) :
    parent.length < name.length := by
  obtain ⟨p, hp, rfl⟩ := Option.map_eq_some_iff.1 h
  simpa [← String.length_toList] using length_lt_of_parentChars? hp

theorem isAncestor_of_parentName? {name parent : String} (h : parentName? name = some parent) :
    Path.isAncestor parent name = true := by
  obtain ⟨p, hp, rfl⟩ := Option.map_eq_some_iff.1 h
  rw [Path.isAncestor_iff]
  simpa using eq_append_of_parentChars? hp

/-- What a name has if its parent has it, every name has. -/
theorem parent_induction {P : String → Prop}
    (h : ∀ name, (∀ parent, parentName? name = some parent → P parent) → P name) (name : String) :
    P name :=
  h name fun parent _ => parent_induction h parent
termination_by name.length
decreasing_by exact length_lt_of_parentName? ‹_›

structure Module where
  name : String
  /-- Paths owned by the module itself, in the order declared. -/
  paths : List String := []
  /-- Names of the modules needed, in the order declared. -/
  dependsOn : List String := []
  /-- The names in `dependsOn` come from an enclosing module. -/
  inheritedDepends : Bool := false
  flags : Flags := {}
  deriving Repr, DecidableEq

namespace Module

def parent? (m : Module) : Option String := parentName? m.name

def isInfrastructure (m : Module) : Bool := m.flags.infrastructure

end Module

end ModuleGraph
