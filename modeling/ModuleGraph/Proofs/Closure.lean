import ModuleGraph.Proofs.Accounting
import ModuleGraph.Proofs.Lookup
import ModuleGraph.Proofs.Trail

/-!
# Resolution as a closure

The paths of a resolution are the own paths of the expanded modules. Unless an entry was too deep
these are all the modules that dependencies lead to.
-/

namespace ModuleGraph

open Resolution

variable {d : Definitions} {t m : Module} {n p x : String} {k : Nat}

theorem mem_paths_resolve :
    p ∈ (resolve d t).paths ↔ ∃ m k, (m, k) ∈ expansions d.load t ∧ p ∈ m.paths := by
  simp only [resolve, mem_firsts, List.mem_append, List.mem_flatMap, mem_expansions]
  constructor
  · rintro (hp | ⟨v, hv, hp⟩)
    · exact ⟨t, 0, .inl ⟨rfl, rfl⟩, hp⟩
    · cases v with
      | expanded m k => exact ⟨m, k, .inr hv, hp⟩
      | repeated | tooDeep | missing => exact absurd hp List.not_mem_nil
  · rintro ⟨m, k, ⟨rfl, -⟩ | hv, hp⟩
    · exact .inl hp
    · exact .inr ⟨_, hv, hp⟩

theorem exists_route_of_mem_expansions (ht : d.load n = some t)
    (hm : (m, k) ∈ expansions d.load t) :
    ∃ ys, Route d.load n ys m.name ∧ ys.length ≤ maxDepth ∧ d.load m.name = some m := by
  obtain rfl := Definitions.name_of_load ht
  obtain ⟨hk, ys, hr, rfl, -⟩ := route_of_mem_expansions Definitions.name_of_load ht hm
  exact ⟨ys, hr, hk, loads_of_mem_expansions Definitions.name_of_load ht hm⟩

/-- Without an entry that was too deep, every module that dependencies lead to is expanded. -/
theorem mem_expansions_of_reflTransGen (ht : d.load n = some t)
    (hdeep : ∀ x k, .depthExceeded x k ∉ (resolve d t).warnings)
    (hr : Relation.ReflTransGen (DependsOn d.load) n x) (hm : d.load x = some m) :
    ∃ k, (m, k) ∈ expansions d.load t := by
  obtain rfl := Definitions.name_of_load ht
  obtain ⟨ys, hr⟩ := reflTransGen_iff_exists_route.1 hr
  have hroot : (t, 0) ∈ expansions d.load t := mem_expansions.2 (.inl ⟨rfl, rfl⟩)
  rcases expands_along_route Definitions.name_of_load ht hr hroot rfl hm with
    h | ⟨_, w, -, -, -, hw⟩
  · exact h
  · exact absurd ((mem_warnings_iff rfl).2 hw) (hdeep _ _)

/-- A resolution holds each path once. If it reports no entry too deep, its paths are exactly those
of the modules that dependencies lead to; in any case its paths are those of modules at most
`maxDepth` dependencies away. -/
theorem resolve_paths_closure (ht : d.load n = some t) :
    (resolve d t).paths.Nodup ∧
    ((∀ x k, .depthExceeded x k ∉ (resolve d t).warnings) →
      ∀ p, p ∈ (resolve d t).paths ↔
        ∃ x m, Relation.ReflTransGen (DependsOn d.load) n x ∧ d.load x = some m ∧ p ∈ m.paths) ∧
    ∀ p ∈ (resolve d t).paths,
      ∃ x m ys, Route d.load n ys x ∧ ys.length ≤ maxDepth ∧ d.load x = some m ∧ p ∈ m.paths := by
  refine ⟨nodup_firsts _, ?_, ?_⟩
  · intro hdeep p
    constructor
    · intro hp
      obtain ⟨m, k, hm, hp⟩ := mem_paths_resolve.1 hp
      obtain ⟨ys, hr, -, hl⟩ := exists_route_of_mem_expansions ht hm
      exact ⟨m.name, m, hr.reflTransGen, hl, hp⟩
    · rintro ⟨x, m, hr, hl, hp⟩
      obtain ⟨k, hm⟩ := mem_expansions_of_reflTransGen ht hdeep hr hl
      exact mem_paths_resolve.2 ⟨m, k, hm, hp⟩
  · intro p hp
    obtain ⟨m, k, hm, hp⟩ := mem_paths_resolve.1 hp
    obtain ⟨ys, hr, hk, hl⟩ := exists_route_of_mem_expansions ht hm
    exact ⟨m.name, m, ys, hr, hk, hl, hp⟩

theorem monorepo_resolves_to_closure :
    monorepo.load "app" = some app ∧
    (∀ x k, .depthExceeded x k ∉ (resolve monorepo app).warnings) ∧
    ∀ p, p ∈ ["src/app", "src/ui", "lib"] ↔
      ∃ x m, Relation.ReflTransGen (DependsOn monorepo.load) "app" x ∧
        monorepo.load x = some m ∧ p ∈ m.paths := by
  have hdeep : ∀ x k, .depthExceeded x k ∉ (resolve monorepo app).warnings := by
    intro x k
    simp [warnings_monorepo_app]
  refine ⟨load_monorepo_app, hdeep, ?_⟩
  rw [← paths_monorepo_app]
  exact (resolve_paths_closure load_monorepo_app).2.1 hdeep

end ModuleGraph
