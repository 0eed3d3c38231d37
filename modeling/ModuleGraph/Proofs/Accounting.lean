import ModuleGraph.Proofs.Lookup
import ModuleGraph.Proofs.Traversal
import Mathlib.Algebra.Ring.Nat
import Mathlib.Data.List.Perm.Basic

/-!
# What becomes of the dependency entries

A traversal takes every dependency entry of the modules that it expands exactly once. An entry
expands the module that it names, or one warning tells why it does not, so the entries of the
expanded modules are as many as the modules, the target apart, and those warnings together. Which of
these happens depends on the names seen before, on the depth and on whether the name loads, in this
order.
-/

namespace ModuleGraph

/-- The warning tells of a dependency entry that expands no module. -/
def Warning.dropsEntry : Warning → Bool
  | circularDependency .. | depthExceeded .. | missingDependency .. => true
  | pathOutsideParent .. | moduleSkipped .. => false

namespace Resolution

variable {load : String → Option Module} {s s' : State} {v : Visit} {vs : List Visit}

/-- The entry expands the module that it names, or gives one warning that holds its name. -/
def Settles (load : String → Option Module) (e : Entry) (v : Visit) : Prop :=
  (∃ m, load e.name = some m ∧ v = .expanded m e.depth) ∨
    ∃ w, v.warnings load = [w] ∧
      (w = .circularDependency e.referrer e.name ∨ w = .depthExceeded e.name e.depth ∨
        w = .missingDependency e.referrer e.name)

theorem settles_iff {e : Entry} :
    Settles load e v ↔ (∃ m, load e.name = some m ∧ v = .expanded m e.depth) ∨
      v = .repeated e.referrer e.name ∨ v = .tooDeep e.name e.depth ∨
        v = .missing e.referrer e.name := by
  refine or_congr Iff.rfl ⟨?_, ?_⟩
  · rintro ⟨w, hv, hw⟩
    cases v with
    | repeated | tooDeep | missing =>
      simp only [Visit.warnings, List.cons.injEq, and_true] at hv
      subst hv
      simpa using hw
    | expanded m k =>
      have hmem : w ∈ parentWarnings load m := by
        change w ∈ Visit.warnings load (.expanded m k)
        simp [hv]
      obtain ⟨parent, path, rfl⟩ := eq_of_mem_parentWarnings hmem
      simp at hw
  · rintro (rfl | rfl | rfl) <;> simp [Visit.warnings]

/-! ### What decides an entry -/

namespace Entry

/-- What becomes of an entry while these names are seen. -/
def outcome (load : String → Option Module) (seen : List String) (e : Entry) : Visit :=
  if e.name ∈ seen then .repeated e.referrer e.name
  else if maxDepth < e.depth then .tooDeep e.name e.depth
  else
    match load e.name with
    | none => .missing e.referrer e.name
    | some m => .expanded m e.depth

/-- The names seen behind an entry: its own too, unless it lay too deep. -/
def mark (seen : List String) (e : Entry) : List String :=
  if e.name ∈ seen ∨ maxDepth < e.depth then seen else e.name :: seen

theorem settles_outcome (load : String → Option Module) (seen : List String) (e : Entry) :
    Settles load e (e.outcome load seen) := by
  rw [settles_iff, outcome]
  split
  · exact .inr (.inl rfl)
  · split
    · exact .inr (.inr (.inl rfl))
    · split
      · exact .inr (.inr (.inr rfl))
      · exact .inl ⟨_, ‹_›, rfl⟩

end Entry

/-- Each visit is what its entry comes to, given the names seen at first and those that the entries
before it left as seen. -/
inductive Follows (load : String → Option Module) : List String → List Entry → List Visit → Prop
  | nil (seen : List String) : Follows load seen [] []
  | cons {seen : List String} {e : Entry} {es : List Entry} {vs : List Visit} :
    Follows load (e.mark seen) es vs → Follows load seen (e :: es) (e.outcome load seen :: vs)

theorem Follows.settles {seen : List String} {es : List Entry} (h : Follows load seen es vs) :
    List.Forall₂ (Settles load) es vs := by
  induction h with
  | nil => exact .nil
  | cons _ ih => exact .cons (Entry.settles_outcome ..) ih

/-! ### Entries are taken one by one -/

/-- The entries that a visit puts in front of the pending ones. -/
def Visit.below : Visit → List Entry
  | expanded m k => entries m (k + 1)
  | _ => []

theorem Step.takes (h : Step load s v s') :
    ∃ e rest, s.pending = e :: rest ∧ v = e.outcome load s.seen ∧
      s' = ⟨v.below ++ rest, e.mark s.seen⟩ := by
  cases h with
  | repeated hm => exact ⟨_, _, rfl, by simp [Entry.outcome, hm], by simp [Visit.below, Entry.mark, hm]⟩
  | tooDeep hn hd =>
    exact ⟨_, _, rfl, by simp [Entry.outcome, hn, hd], by simp [Visit.below, Entry.mark, hd]⟩
  | missing hn hd hl =>
    have hd := Nat.not_lt.2 hd
    exact ⟨_, _, rfl, by simp [Entry.outcome, hn, hd, hl], by simp [Visit.below, Entry.mark, hn, hd]⟩
  | expanded hn hd hl =>
    have hd := Nat.not_lt.2 hd
    exact ⟨_, _, rfl, by simp [Entry.outcome, hn, hd, hl], by simp [Visit.below, Entry.mark, hn, hd]⟩

/-- The entries taken are those pending at first and those put in front of them, but for those still
pending. -/
theorem Run.takes (h : Run load s vs s') :
    ∃ es, Follows load s.seen es vs ∧
      (s.pending ++ vs.flatMap Visit.below).Perm (es ++ s'.pending) := by
  induction h with
  | nil s => exact ⟨[], .nil _, by simp⟩
  | @cons s s₁ s' v vs hs _ ih =>
    obtain ⟨e, rest, hp, rfl, rfl⟩ := hs.takes
    obtain ⟨es, hes, hperm⟩ := ih
    refine ⟨e :: es, .cons hes, ?_⟩
    rw [hp, List.flatMap_cons, List.cons_append, List.cons_append]
    apply List.Perm.cons
    -- What the visit puts in front is pending after it: for `ih` it moves in front of the rest.
    rw [List.append_assoc] at hperm
    refine List.Perm.trans ?_ hperm
    rw [← List.append_assoc, ← List.append_assoc]
    exact List.perm_append_comm.append_right _

/-- The dependency entries of the modules that contribute, each below the level of its module. -/
def entriesMet (load : String → Option Module) (target : Module) : List Entry :=
  (expansions load target).flatMap fun x => entries x.1 (x.2 + 1)

theorem entriesMet_eq (load : String → Option Module) (target : Module) :
    entriesMet load target = entries target 1 ++ (visits load target).flatMap Visit.below := by
  have h : ∀ v : Visit, v.below = (v.expansion?.map fun x => entries x.1 (x.2 + 1)).getD [] := by
    intro v
    cases v <;> rfl
  rw [flatMap_eq_of_expansion? h, entriesMet, expansions, List.flatMap_cons]

theorem length_entriesMet (load : String → Option Module) (target : Module) :
    (entriesMet load target).length =
      ((expansions load target).map (·.1.dependsOn.length)).sum := by
  simp [entriesMet, List.length_flatMap, entries]

theorem visits_follow_entries (load : String → Option Module) (target : Module) :
    ∃ es, Follows load [target.name] es (visits load target) ∧
      es.Perm (entriesMet load target) := by
  obtain ⟨seen, h⟩ := run_visits load target
  obtain ⟨es, hes, hperm⟩ := h.takes
  refine ⟨es, hes, ?_⟩
  rw [entriesMet_eq]
  simpa [State.initial] using hperm.symm

/-! ### Names -/

def Visit.name : Visit → String
  | repeated _ name | tooDeep name _ | missing _ name => name
  | expanded m _ => m.name

/-- The names that the modules that contribute depend on, each as often as it is named. -/
def references (load : String → Option Module) (target : Module) : List String :=
  (expansions load target).flatMap (·.1.dependsOn)

theorem map_name_entriesMet (load : String → Option Module) (target : Module) :
    (entriesMet load target).map Entry.name = references load target := by
  simp [entriesMet, references, entries, List.map_flatMap, Function.comp_def]

section Named

variable (named : ∀ {x : String} {m : Module}, load x = some m → m.name = x)
include named

theorem map_name_of_settles {es : List Entry} (h : List.Forall₂ (Settles load) es vs) :
    es.map Entry.name = vs.map Visit.name := by
  induction h with
  | nil => rfl
  | cons h _ ih =>
    rw [List.map_cons, List.map_cons, ih]
    rcases settles_iff.1 h with ⟨m, hl, rfl⟩ | rfl | rfl | rfl
    · rw [Visit.name, named hl]
    all_goals rfl

theorem perm_references (target : Module) :
    ((visits load target).map Visit.name).Perm (references load target) := by
  obtain ⟨es, hes, hperm⟩ := visits_follow_entries load target
  rw [← map_name_of_settles named hes.settles, ← map_name_entriesMet]
  exact hperm.map _

end Named

/-! ### Counting -/

theorem filter_parentWarnings (load : String → Option Module) (m : Module) :
    (parentWarnings load m).filter Warning.dropsEntry = [] := by
  rw [List.filter_eq_nil_iff]
  intro w hw
  obtain ⟨parent, path, rfl⟩ := eq_of_mem_parentWarnings hw
  exact Bool.false_ne_true

theorem countP_parentWarnings (load : String → Option Module) (m : Module) :
    (parentWarnings load m).countP Warning.dropsEntry = 0 := by
  rw [List.countP_eq_length_filter, filter_parentWarnings, List.length_nil]

theorem length_eq_expanded_add_dropped (load : String → Option Module) (vs : List Visit) :
    vs.length = (vs.filterMap Visit.expansion?).length +
      (vs.flatMap (Visit.warnings load)).countP Warning.dropsEntry := by
  induction vs with
  | nil => rfl
  | cons v vs ih =>
    rw [List.flatMap_cons, List.countP_append, List.length_cons, ih, List.filterMap_cons]
    cases v with
    | expanded m k =>
      have hnone : (Visit.warnings load (.expanded m k)).countP Warning.dropsEntry = 0 :=
        countP_parentWarnings load m
      rw [hnone]
      simp only [Visit.expansion?, List.length_cons]
      omega
    | repeated | tooDeep | missing =>
      simp only [Visit.expansion?, Visit.warnings, List.countP_singleton, Warning.dropsEntry,
        if_true]
      omega

/-! ### Warnings about entries -/

/-- The warning that a visit gives for the entry that it drops. -/
def Visit.warning? : Visit → Option Warning
  | repeated referrer name => some (.circularDependency referrer name)
  | tooDeep name depth => some (.depthExceeded name depth)
  | missing referrer name => some (.missingDependency referrer name)
  | expanded .. => none

theorem filter_flatMap_warnings (load : String → Option Module) (vs : List Visit) :
    (vs.flatMap (Visit.warnings load)).filter Warning.dropsEntry =
      vs.filterMap Visit.warning? := by
  induction vs with
  | nil => rfl
  | cons v vs ih =>
    rw [List.flatMap_cons, List.filter_append, ih]
    cases v with
    | expanded m k =>
      change (parentWarnings load m).filter Warning.dropsEntry ++ _ = _
      rw [filter_parentWarnings]
      rfl
    | repeated | tooDeep | missing => rfl

/-- The warnings about dropped entries are those of the visits, in their order. -/
theorem filter_warnings (d : Definitions) (t : Module) :
    (resolve d t).warnings.filter Warning.dropsEntry =
      (visits d.load t).filterMap Visit.warning? := by
  rw [resolve, List.filter_append, filter_parentWarnings, List.nil_append, filter_flatMap_warnings]

theorem warning?_eq_some_iff {u : Visit} {w : Warning} (hu : u.warning? = some w) :
    v.warning? = some w ↔ v = u := by
  refine ⟨fun hv => ?_, fun h => h ▸ hu⟩
  cases u <;> cases hu <;> cases v <;> cases hv <;> rfl

theorem dropsEntry_of_warning? {u : Visit} {w : Warning} (hu : u.warning? = some w) :
    w.dropsEntry := by
  cases u <;> cases hu <;> rfl

variable {d : Definitions} {t m : Module} {w : Warning} {u : Visit}

theorem notMem_parentWarnings (hu : u.warning? = some w) : w ∉ parentWarnings load m := by
  intro hw
  obtain ⟨parent, path, rfl⟩ := eq_of_mem_parentWarnings hw
  exact Bool.false_ne_true (dropsEntry_of_warning? hu)

theorem mem_flatMap_warnings (hu : u.warning? = some w) :
    w ∈ vs.flatMap (Visit.warnings load) ↔ u ∈ vs := by
  have hvisit : ∀ v : Visit, w ∈ v.warnings load ↔ v.warning? = some w := by
    intro v
    cases v with
    | repeated | tooDeep | missing => simp [Visit.warnings, Visit.warning?, eq_comm]
    | expanded m k => exact iff_of_false (notMem_parentWarnings hu) (by simp [Visit.warning?])
  simp [List.mem_flatMap, hvisit, warning?_eq_some_iff hu]

theorem mem_warnings_iff (hu : u.warning? = some w) :
    w ∈ (resolve d t).warnings ↔ u ∈ visits d.load t := by
  rw [resolve, List.mem_append, or_iff_right (notMem_parentWarnings hu), mem_flatMap_warnings hu]

theorem count_warnings (hu : u.warning? = some w) :
    (resolve d t).warnings.count w = (visits d.load t).count u := by
  rw [← List.count_filter (dropsEntry_of_warning? hu), filter_warnings, List.count,
    List.countP_filterMap]
  refine List.countP_congr fun v _ => ?_
  rw [beq_iff_eq, ← warning?_eq_some_iff hu]
  cases v.warning? <;> simp

end Resolution

open Resolution

/-- Modules are expanded once each, as they load, and never the target as a dependency. The visits
settle the dependency entries of the target and of the expanded modules one by one, each by its
module or by one warning, so there are as many entries as visits, and as many as dependencies
expanded and warnings of these kinds. An entry for a name that is seen repeats it, else one below
the last level is too deep, else its name is missing if it does not load. -/
theorem entries_settled_once (d : Definitions) (t : Module) :
    ((expansions d.load t).map (·.1.name)).Nodup ∧
    (∀ m k, .expanded m k ∈ visits d.load t → d.load m.name = some m ∧ m.name ≠ t.name) ∧
    (∃ es, es.Perm (entriesMet d.load t) ∧
      List.Forall₂ (Settles d.load) es (visits d.load t) ∧
      Follows d.load [t.name] es (visits d.load t)) ∧
    (visits d.load t).length = ((expansions d.load t).map (·.1.dependsOn.length)).sum ∧
    ((expansions d.load t).map (·.1.dependsOn.length)).sum =
      ((expansions d.load t).length - 1) + (resolve d t).warnings.countP Warning.dropsEntry := by
  obtain ⟨es, hes, hperm⟩ := visits_follow_entries d.load t
  have hlength : (visits d.load t).length =
      ((expansions d.load t).map (·.1.dependsOn.length)).sum := by
    rw [← length_entriesMet, ← hperm.length_eq, hes.settles.length_eq]
  refine ⟨nodup_expansions Definitions.name_of_load t, ?_, ⟨es, hperm, hes.settles, hes⟩, hlength, ?_⟩
  · intro m k hv
    obtain ⟨seen, h⟩ := run_visits d.load t
    obtain ⟨hl, hn⟩ := h.expanded_loads Definitions.name_of_load hv
    exact ⟨hl, fun he => hn (he ▸ List.mem_singleton_self _)⟩
  · rw [← hlength, length_eq_expanded_add_dropped d.load]
    simp only [resolve, List.countP_append, countP_parentWarnings, expansions, List.length_cons]
    omega

/-! ### A repository -/

def app : Module := { name := "app", paths := ["src/app"], dependsOn := ["ui", "lib"] }

def tools : Module :=
  { name := "tools", paths := ["src", "lib/vendor", ".github/bin", "docs"] }

/-- A circle of dependencies below `app`, a name that is missing, and `tools` in the directories of
others. -/
def monorepo : Definitions := .ofModules
  [app,
    { name := "ui", paths := ["src/ui"], dependsOn := ["lib", "app"] },
    { name := "lib", paths := ["lib"], dependsOn := ["ghost"] },
    { name := "ci", paths := [".github"], flags := { infrastructure := true } },
    tools]

theorem load_monorepo_app : monorepo.load "app" = some app := by decide +kernel

theorem paths_monorepo_app : (resolve monorepo app).paths = ["src/app", "src/ui", "lib"] := by
  decide +kernel

theorem warnings_monorepo_app :
    (resolve monorepo app).warnings =
      [.missingDependency "lib" "ghost", .circularDependency "ui" "app",
        .circularDependency "app" "lib"] := by
  decide +kernel

/-- Five entries: two expand `ui` and `lib`, and each of the others has its warning. -/
theorem monorepo_settles_entries :
    ((expansions monorepo.load app).map (·.1.name)) = ["app", "ui", "lib"] ∧
    ((expansions monorepo.load app).map (·.1.dependsOn.length)).sum = (3 - 1) + 3 ∧
    (visits monorepo.load app).map Visit.name = ["ui", "lib", "ghost", "app", "lib"] ∧
    ∃ es, es.map Entry.name = ["ui", "lib", "ghost", "app", "lib"] ∧
      Follows monorepo.load ["app"] es (visits monorepo.load app) := by
  have hexpanded : (expansions monorepo.load app).map (·.1.name) = ["app", "ui", "lib"] := by
    decide +kernel
  have hvisited : (visits monorepo.load app).map Visit.name = ["ui", "lib", "ghost", "app", "lib"] := by
    decide +kernel
  have hlength : (expansions monorepo.load app).length = 3 := by
    rw [← List.length_map (·.1.name), hexpanded]
    rfl
  obtain ⟨-, -, ⟨es, -, hsettles, hfollows⟩, -, hsum⟩ := entries_settled_once monorepo app
  rw [hlength, warnings_monorepo_app] at hsum
  refine ⟨hexpanded, hsum, hvisited, es, ?_, hfollows⟩
  rw [map_name_of_settles Definitions.name_of_load hsettles, hvisited]

end ModuleGraph
