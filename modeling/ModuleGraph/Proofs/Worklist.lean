import ModuleGraph.Proofs.Lookup
import ModuleGraph.Proofs.Traversal

/-!
# Resolution as a loop over a worklist

The dependency entries still to be looked at form a list. The loop takes the first of them and puts
the entries of the module that it expands in front of the others; whether a name has been visited is
asked when its entry is taken. The nested traversal gives the same paths and the same warnings, in
the same order.
-/

namespace ModuleGraph

open Resolution

structure Worklist where
  pending : List Entry
  visited : List String
  /-- The modules that contribute, in the order of their discovery. -/
  discovered : List Module
  paths : List String
  warnings : List Warning

namespace Worklist

def warn (w : Worklist) (warning : Warning) : Worklist :=
  { w with warnings := w.warnings ++ [warning] }

/-- Adds the paths that are not there yet, each behind the others. -/
def addPaths (paths own : List String) : List String :=
  own.foldl (fun paths path => if path ∈ paths then paths else paths ++ [path]) paths

/-- Checks a module against its parent, adds its paths, and puts its dependencies in front. -/
def discover (load : String → Option Module) (w : Worklist) (m : Module) (depth : Nat) :
    Worklist where
  pending := m.dependsOn.map (⟨m.name, ·, depth⟩) ++ w.pending
  visited := w.visited
  discovered := w.discovered ++ [m]
  paths := addPaths w.paths m.paths
  warnings := w.warnings ++ parentWarnings load m

/-- Takes an entry; the others are pending. -/
def take (load : String → Option Module) (w : Worklist) (e : Entry) : Worklist :=
  if e.name ∈ w.visited then w.warn (.circularDependency e.referrer e.name)
  else if maxDepth < e.depth then w.warn (.depthExceeded e.name e.depth)
  else
    let marked := { w with visited := e.name :: w.visited }
    match load e.name with
    | none => marked.warn (.missingDependency e.referrer e.name)
    | some m => marked.discover load m (e.depth + 1)

def unvisited (d : Definitions) (w : Worklist) : List String := d.names.filter (· ∉ w.visited)

/-- An entry that is taken is gone, and what it puts in front it does by visiting a listed name. -/
theorem take_decreases (d : Definitions) (w : Worklist) (e : Entry) :
    ((take d.load w e).unvisited d).length < (w.unvisited d).length ∨
      ((take d.load w e).unvisited d).length ≤ (w.unvisited d).length ∧
        (take d.load w e).pending = w.pending := by
  have hsplit : d.names.filter (· ∉ e.name :: w.visited) =
      (w.unvisited d).filter (· ≠ e.name) := by
    simp [unvisited, List.filter_filter]
  have hle : (d.names.filter (· ∉ e.name :: w.visited)).length ≤ (w.unvisited d).length := by
    rw [hsplit]
    exact List.length_filter_le _ _
  unfold take
  split
  · exact .inr ⟨Nat.le_refl _, rfl⟩
  · rename_i hv
    split
    · exact .inr ⟨Nat.le_refl _, rfl⟩
    · cases hl : d.load e.name with
      | none => exact .inr ⟨hle, rfl⟩
      | some m =>
        apply Or.inl
        change (d.names.filter (· ∉ e.name :: w.visited)).length < _
        rw [hsplit, List.length_filter_lt_length_iff_exists]
        have hname : e.name ∈ d.names := Definitions.mem_names_iff.2 ⟨m, hl⟩
        exact ⟨e.name, List.mem_filter.2 ⟨hname, by simpa using hv⟩, by simp⟩

/-- Takes entries until none is pending. -/
def finish (d : Definitions) (w : Worklist) : Worklist :=
  match _ : w.pending with
  | [] => w
  | e :: rest => finish d (take d.load { w with pending := rest } e)
termination_by ((w.unvisited d).length, w.pending.length)
decreasing_by
  -- An expansion uses up a listed name; every other entry leaves the pending list shorter.
  rcases take_decreases d { w with pending := rest } e with h | ⟨h, hrest⟩
  · exact Prod.Lex.left _ _ h
  · refine Prod.Lex.right' _ h ?_
    rw [hrest, ‹w.pending = _›]
    exact Nat.lt_succ_self _

/-- The loop from a module: its name is visited, and its dependencies are at level 1. -/
def ofModule (d : Definitions) (target : Module) : Worklist :=
  finish d (discover d.load ⟨[], [target.name], [], [], []⟩ target 1)

variable {d : Definitions} {load : String → Option Module} {w : Worklist}

theorem finish_nil (h : w.pending = []) : finish d w = w := by
  rw [finish]
  split
  · rfl
  · rename_i hp
    rw [h] at hp
    cases hp

theorem finish_cons {e : Entry} {rest : List Entry} (h : w.pending = e :: rest) :
    finish d w = finish d (take d.load { w with pending := rest } e) := by
  rw [finish]
  split
  · rename_i hp
    rw [h] at hp
    cases hp
  · rename_i hp
    rw [h] at hp
    cases hp
    rfl

/-! ### The paths of the loop -/

theorem addPaths_append (paths own own' : List String) :
    addPaths paths (own ++ own') = addPaths (addPaths paths own) own' :=
  List.foldl_append

theorem addPaths_eq (paths own : List String) :
    addPaths paths own = paths ++ firstsAfter paths own := by
  induction own generalizing paths with
  | nil => simp [addPaths]
  | cons p own ih =>
    change addPaths (if p ∈ paths then paths else paths ++ [p]) own = _
    by_cases hp : p ∈ paths
    · rw [if_pos hp, ih, firstsAfter, if_pos hp]
    · have hseen : firstsAfter (paths ++ [p]) own = firstsAfter (p :: paths) own :=
        firstsAfter_congr (by simp [or_comm]) own
      rw [if_neg hp, ih, firstsAfter, if_neg hp, hseen, List.append_assoc, List.singleton_append]

/-! ### The traversal takes the same way -/

/-- What some visits that lead to `s` make of a worklist. -/
def after (load : String → Option Module) (w : Worklist) (vs : List Visit) (s : State) :
    Worklist where
  pending := s.pending
  visited := s.seen
  discovered := w.discovered ++ (vs.filterMap Visit.expansion?).map Prod.fst
  paths := addPaths w.paths (vs.flatMap Visit.paths)
  warnings := w.warnings ++ vs.flatMap (Visit.warnings load)

theorem after_append {s s' : State} (vs ws : List Visit) :
    (w.after load vs s).after load ws s' = w.after load (vs ++ ws) s' := by
  simp [after, addPaths_append]

theorem take_of_step {s s' : State} {v : Visit} (h : Step load s v s') (hs : w.visited = s.seen) :
    ∃ e rest, s.pending = e :: rest ∧
      take load { w with pending := rest } e = w.after load [v] s' := by
  cases h with
  | repeated hm =>
    refine ⟨_, _, rfl, ?_⟩
    simp only at hs
    simp [take, after, hs, hm, warn, addPaths, Visit.expansion?, Visit.paths, Visit.warnings]
  | tooDeep hm hd =>
    refine ⟨_, _, rfl, ?_⟩
    simp only at hs
    simp [take, after, hs, hm, hd, warn, addPaths, Visit.expansion?, Visit.paths, Visit.warnings]
  | missing hm hd hl =>
    refine ⟨_, _, rfl, ?_⟩
    simp only at hs
    simp [take, after, hs, hm, Nat.not_lt.2 hd, hl, warn, addPaths, Visit.expansion?, Visit.paths,
      Visit.warnings]
  | expanded hm hd hl =>
    refine ⟨_, _, rfl, ?_⟩
    simp only at hs
    simp [take, after, hs, hm, Nat.not_lt.2 hd, hl, discover, entries, Visit.expansion?,
      Visit.paths, Visit.warnings]

theorem finish_of_run {s s' : State} {vs : List Visit} (h : Run d.load s vs s')
    (hend : s'.pending = []) (hp : w.pending = s.pending) (hs : w.visited = s.seen) :
    finish d w = w.after d.load vs s' := by
  induction h generalizing w with
  | nil s =>
    rw [finish_nil (hp.trans hend)]
    simp [after, addPaths, ← hp, ← hs]
  | cons hstep _ ih =>
    obtain ⟨e, rest, hpending, htake⟩ := take_of_step hstep hs
    rw [finish_cons (hp.trans hpending), htake, ih hend rfl rfl, after_append]
    rfl

end Worklist

theorem flatMap_paths_expansions (load : String → Option Module) (target : Module) :
    ((expansions load target).map Prod.fst).flatMap Module.paths =
      target.paths ++ (visits load target).flatMap Visit.paths := by
  have h : ∀ v : Visit, v.paths = (v.expansion?.map fun x => x.1.paths).getD [] := by
    intro v
    cases v <;> rfl
  rw [flatMap_eq_of_expansion? h, List.flatMap_map, expansions, List.flatMap_cons]

/-- A resolution has the paths and the warnings of the loop over a worklist. Its paths are the own
paths of the modules in the order of their discovery, the target first, each where it is met
first. -/
theorem resolve_eq_worklist (d : Definitions) (t : Module) :
    resolve d t = ⟨t.name, (Worklist.ofModule d t).paths, (Worklist.ofModule d t).warnings⟩ ∧
    (Worklist.ofModule d t).discovered = (expansions d.load t).map Prod.fst ∧
    (resolve d t).paths = firsts ((Worklist.ofModule d t).discovered.flatMap Module.paths) := by
  obtain ⟨seen, h⟩ := run_visits d.load t
  have hloop : Worklist.ofModule d t = _ := Worklist.finish_of_run h rfl (List.append_nil _) rfl
  have hdiscovered : (Worklist.ofModule d t).discovered = (expansions d.load t).map Prod.fst := by
    rw [hloop]
    rfl
  have hpaths : (Worklist.ofModule d t).paths = (resolve d t).paths := by
    rw [hloop]
    change Worklist.addPaths (Worklist.addPaths [] t.paths) _ = _
    rw [← Worklist.addPaths_append, Worklist.addPaths_eq]
    rfl
  have hwarnings : (Worklist.ofModule d t).warnings = (resolve d t).warnings := by
    rw [hloop]
    rfl
  refine ⟨?_, hdiscovered, ?_⟩
  · rw [hpaths, hwarnings]
    rfl
  · rw [hdiscovered, flatMap_paths_expansions]
    rfl

end ModuleGraph
