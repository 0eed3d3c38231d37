import ModuleGraph.Proofs.Closure
import ModuleGraph.Proofs.PathOrder
import ModuleGraph.Visibility

/-!
# Safe and exact plans

A plan hides the paths of the foreign modules, those listed that are neither the target nor
infrastructure, except where that would hide a needed path: one that the target resolves to, or one
of an infrastructure module.
-/

namespace ModuleGraph

open ModuleGraph.Path

variable {d : Definitions} {t m : Module} {n e f p q : String}

/-- The listed modules other than the target that are not infrastructure, in catalog order. -/
def foreignModules (d : Definitions) (t : Module) : List Module :=
  (d.names.filterMap d.load).filter fun m => m.name ≠ t.name ∧ m.isInfrastructure = false

/-- Their own paths, in catalog order of the modules and in the order declared. -/
def foreignPaths (d : Definitions) (t : Module) : List String :=
  (foreignModules d t).flatMap Module.paths

/-- The target resolves to the path, or an infrastructure module owns it. -/
def Needed (d : Definitions) (t : Module) (q : String) : Prop :=
  q ∈ (resolve d t).paths ∨
    ∃ m, d.load m.name = some m ∧ m.isInfrastructure = true ∧ q ∈ m.paths

namespace Plan

theorem canHide_iff {kept : List String} :
    canHide p kept = true ↔ ∀ q ∈ kept, isWithin q p = false := by
  simp [canHide, isWithin]

theorem mem_otherModules :
    m ∈ otherModules d t ↔ d.load m.name = some m ∧ m.name ≠ t.name := by
  simp only [otherModules, otherNames, List.mem_filterMap, List.mem_filter,
    Definitions.mem_names_iff, decide_eq_true_eq]
  constructor
  · rintro ⟨x, ⟨-, hx⟩, hl⟩
    obtain rfl := Definitions.name_of_load hl
    exact ⟨hl, hx⟩
  · rintro ⟨hl, hx⟩
    exact ⟨m.name, ⟨⟨m, hl⟩, hx⟩, hl⟩

theorem mem_protectedPaths {ms : List Module} :
    q ∈ protectedPaths ms ↔ ∃ m ∈ ms, m.isInfrastructure = true ∧ q ∈ m.paths := by
  simp [protectedPaths, and_assoc]

end Plan

theorem mem_paths_resolve_of_own (h : p ∈ t.paths) : p ∈ (resolve d t).paths :=
  mem_firsts.2 (List.mem_append_left _ h)

theorem needed_iff (ht : d.load n = some t) :
    Needed d t q ↔
      q ∈ (resolve d t).paths ∨ q ∈ Plan.protectedPaths (Plan.otherModules d t) := by
  obtain rfl := Definitions.name_of_load ht
  simp only [Needed, Plan.mem_protectedPaths, Plan.mem_otherModules]
  constructor
  · rintro (hq | ⟨m, hl, hi, hq⟩)
    · exact .inl hq
    · -- The planner looks at the other modules only, but the target resolves to its own paths.
      by_cases hn : m.name = t.name
      · rw [hn, ht] at hl
        obtain rfl := Option.some.inj hl
        exact .inl (mem_paths_resolve_of_own hq)
      · exact .inr ⟨m, ⟨hl, hn⟩, hi, hq⟩
  · rintro (hq | ⟨m, ⟨hl, -⟩, hi, hq⟩)
    · exact .inl hq
    · exact .inr ⟨m, hl, hi, hq⟩

theorem foreignModules_eq :
    foreignModules d t = (Plan.otherModules d t).filter (!·.isInfrastructure) := by
  rw [foreignModules, Plan.otherModules, Plan.otherNames, List.filter_filterMap,
    List.filter_filterMap, List.filterMap_filter]
  refine List.filterMap_congr fun x _ => ?_
  cases hl : d.load x with
  | none => simp
  | some m =>
    have hn := Definitions.name_of_load hl
    by_cases hx : x = t.name <;> simp [Option.filter, hn, hx]

theorem hidden_eq (d : Definitions) (t : Module) :
    (plan d t).hidden = (firsts (foreignPaths d t)).filter fun p =>
      Plan.canHide p (resolve d t).paths &&
        Plan.canHide p (Plan.protectedPaths (Plan.otherModules d t)) := by
  rw [plan, Plan.hiddenPaths, firsts_filter, ← foreignModules_eq, foreignPaths]

/-- A path is hidden exactly if it is foreign and no needed path lies within it. -/
theorem mem_hidden_iff (ht : d.load n = some t) :
    e ∈ (plan d t).hidden ↔
      e ∈ foreignPaths d t ∧ ∀ q, Needed d t q → isWithin q e = false := by
  rw [hidden_eq, List.mem_filter, mem_firsts, Bool.and_eq_true, Plan.canHide_iff, Plan.canHide_iff]
  apply and_congr_right
  intro _
  constructor
  · rintro ⟨hresolved, hprotected⟩ q hq
    rcases (needed_iff ht).1 hq with hq | hq
    · exact hresolved q hq
    · exact hprotected q hq
  · intro h
    refine ⟨?_, ?_⟩
    · intro q hq
      exact h q ((needed_iff ht).2 (.inl hq))
    · intro q hq
      exact h q ((needed_iff ht).2 (.inr hq))

/-- No hidden path is or encloses a needed one; a foreign path that is not hidden is or encloses a
needed one; and the hidden paths are foreign paths, each once, in the order of their first
occurrences. -/
theorem plan_hides_exactly (ht : d.load n = some t) :
    (∀ e ∈ (plan d t).hidden, ∀ q, Needed d t q → e ≠ q ∧ isAncestor e q = false) ∧
    (∀ m ∈ foreignModules d t, ∀ p ∈ m.paths, p ∉ (plan d t).hidden →
      ∃ q, Needed d t q ∧ (p = q ∨ isAncestor p q = true)) ∧
    (∀ e ∈ (plan d t).hidden, ∃ m ∈ foreignModules d t, e ∈ m.paths) ∧
    (plan d t).hidden.Nodup ∧
    (plan d t).hidden.Pairwise fun p q =>
      (foreignPaths d t).idxOf p < (foreignPaths d t).idxOf q := by
  refine ⟨?_, ?_, ?_, ?_, ?_⟩
  · intro e he q hq
    obtain ⟨hne, ha⟩ := isWithin_eq_false_iff.1 (((mem_hidden_iff ht).1 he).2 q hq)
    exact ⟨hne.symm, ha⟩
  · intro m hm p hp hout
    by_contra hnone
    apply hout
    refine (mem_hidden_iff ht).2 ⟨List.mem_flatMap.2 ⟨m, hm, hp⟩, ?_⟩
    intro q hq
    refine isWithin_eq_false_iff.2 ⟨fun he => hnone ⟨q, hq, .inl he.symm⟩, ?_⟩
    exact Bool.eq_false_iff.2 fun ha => hnone ⟨q, hq, .inr ha⟩
  · intro e he
    exact List.mem_flatMap.1 ((mem_hidden_iff ht).1 he).1
  · rw [hidden_eq]
    exact (nodup_firsts _).filter _
  · rw [hidden_eq]
    exact (pairwise_idxOf_firsts _).filter _

/-! ### The plan for `app` -/

theorem hidden_monorepo_app :
    (plan monorepo app).hidden = ["lib/vendor", ".github/bin", "docs"] := by
  decide +kernel

/-- The tools keep `src`, which holds a path of `app`, and lose their other paths. -/
theorem monorepo_hides_tools :
    monorepo.load "app" = some app ∧
    (plan monorepo app).hidden = ["lib/vendor", ".github/bin", "docs"] ∧
    (∀ q, Needed monorepo app q → ".github/bin" ≠ q ∧ isAncestor ".github/bin" q = false) ∧
    ∃ q, Needed monorepo app q ∧ ("src" = q ∨ isAncestor "src" q = true) := by
  have htools : tools ∈ foreignModules monorepo app := by decide +kernel
  have hhidden : ".github/bin" ∈ (plan monorepo app).hidden := by
    rw [hidden_monorepo_app]
    decide
  have hshown : "src" ∉ (plan monorepo app).hidden := by
    rw [hidden_monorepo_app]
    decide
  obtain ⟨hsafe, hkept, -⟩ := plan_hides_exactly load_monorepo_app
  refine ⟨load_monorepo_app, hidden_monorepo_app, hsafe ".github/bin" hhidden, ?_⟩
  exact hkept tools htools "src" (by decide) hshown

/-- A file is hidden only as part of a foreign path, and that path lies strictly below every needed
path that holds the file. -/
theorem hidden_strictly_below_needed (ht : d.load n = some t) (he : e ∈ (plan d t).hidden)
    (hf : isWithin f e = true) :
    (∃ m ∈ foreignModules d t, e ∈ m.paths) ∧
    (∀ q, Needed d t q → isWithin f q = true → isAncestor q e = true ∧ isWithin q e = false) ∧
    (belongsTo f (resolve d t).paths = true →
      ∃ q ∈ (resolve d t).paths, isWithin f q = true ∧ isAncestor q e = true) := by
  obtain ⟨hforeign, hsafe⟩ := (mem_hidden_iff ht).1 he
  have hbelow : ∀ q, Needed d t q → isWithin f q = true → isAncestor q e = true := by
    intro q hq hfq
    -- Both hold the file, so one of the two lies within the other.
    rcases isWithin_or_isWithin hf hfq with h | h
    · rw [hsafe q hq] at h
      exact absurd h (by simp)
    · rcases isWithin_iff.1 h with rfl | ha
      · have hsame := hsafe e hq
        rw [isWithin_self] at hsame
        exact absurd hsame (by simp)
      · exact ha
  refine ⟨List.mem_flatMap.1 hforeign, ?_, ?_⟩
  · intro q hq hfq
    exact ⟨hbelow q hq hfq, hsafe q hq⟩
  · intro hb
    obtain ⟨q, hq, hfq⟩ := List.any_eq_true.1 hb
    exact ⟨q, hq, hfq, hbelow q (.inl hq) hfq⟩

/-- A file of the tools that `lib` holds. -/
theorem monorepo_hides_below_lib :
    "lib/vendor" ∈ (plan monorepo app).hidden ∧ isWithin "lib/vendor/x" "lib/vendor" = true ∧
    "lib" ∈ (resolve monorepo app).paths ∧ isWithin "lib/vendor/x" "lib" = true ∧
    isAncestor "lib" "lib/vendor" = true := by
  have hhidden : "lib/vendor" ∈ (plan monorepo app).hidden := by
    rw [hidden_monorepo_app]
    decide
  have hlib : "lib" ∈ (resolve monorepo app).paths := by
    rw [paths_monorepo_app]
    decide
  have hfile : isWithin "lib/vendor/x" "lib/vendor" = true := by decide +kernel
  have hheld : isWithin "lib/vendor/x" "lib" = true := by decide +kernel
  obtain ⟨-, hbelow, -⟩ := hidden_strictly_below_needed load_monorepo_app hhidden hfile
  exact ⟨hhidden, hfile, hlib, hheld, (hbelow "lib" (.inl hlib) hheld).1⟩

end ModuleGraph
