import ModuleGraph.Proofs.Chain
import ModuleGraph.Proofs.Closure
import Std.Data.String.ToNat

/-!
# The depth bound

Dependencies are followed down to level `maxDepth`, and a module counts as met at the level of its
first visit. A module first met at the last level leads no further, even where a shorter route leads
to it later on. Every other route contributes, and along a route that does not a warning is given.
-/

namespace ModuleGraph

open Resolution

variable {d : Definitions} {t m : Module} {n x y : String} {k : Nat}

theorem not_metLast_target (ht : d.load n = some t) : ¬ MetLast d.load t n := by
  rintro ⟨m, hm, hn⟩
  have hroot : (t, 0) ∈ expansions d.load t := mem_expansions.2 (.inl ⟨rfl, rfl⟩)
  have h := expansions_unique Definitions.name_of_load hm hroot
    (hn.trans (Definitions.name_of_load ht).symm)
  exact absurd h.2 (by decide)

/-- A route ends at an expanded module, or it leaves a module met at the last level and holds a name
that a warning gives. -/
theorem mem_expansions_or_warns (ht : d.load n = some t) (hm : d.load x = some m)
    {ys : List String} (hr : Route d.load n ys x) :
    (∃ k, (m, k) ∈ expansions d.load t) ∨
      (∃ u ∈ ys.dropLast, MetLast d.load t u) ∧
        ∃ w ∈ ys, .depthExceeded w (maxDepth + 1) ∈ (resolve d t).warnings := by
  obtain rfl := Definitions.name_of_load ht
  have hroot : (t, 0) ∈ expansions d.load t := mem_expansions.2 (.inl ⟨rfl, rfl⟩)
  rcases expands_along_route Definitions.name_of_load ht hr hroot rfl hm with
    h | ⟨u, w, rfl | hu, hlast, hw, hdeep⟩
  · exact .inl h
  · exact absurd hlast (not_metLast_target ht)
  · exact .inr ⟨⟨u, hu, hlast⟩, w, hw, (mem_warnings_iff rfl).2 hdeep⟩

theorem mem_expansions_of_shallow_route (ht : d.load n = some t) (hm : d.load x = some m)
    {ys : List String} (hr : Route d.load n ys x)
    (hys : ∀ y ∈ ys.dropLast, ¬ MetLast d.load t y) : ∃ k, (m, k) ∈ expansions d.load t := by
  rcases mem_expansions_or_warns ht hm hr with h | ⟨⟨u, hu, hlast⟩, -⟩
  · exact h
  · exact absurd hlast (hys u hu)

theorem shallow_route_of_mem_expansions (ht : d.load n = some t)
    (hm : (m, k) ∈ expansions d.load t) :
    ∃ ys, Route d.load n ys m.name ∧ ys.length ≤ maxDepth ∧
      ∀ y ∈ ys.dropLast, ¬ MetLast d.load t y := by
  obtain rfl := Definitions.name_of_load ht
  obtain ⟨hk, ys, hr, rfl, -, hys⟩ := route_of_mem_expansions Definitions.name_of_load ht hm
  refine ⟨ys, hr, hk, ?_⟩
  intro y hy hlast
  obtain ⟨m₁, l, hm₁, hn₁, hl⟩ := hys y hy
  obtain ⟨m₂, hm₂, hn₂⟩ := hlast
  have h := expansions_unique Definitions.name_of_load hm₁ hm₂ (hn₁.trans hn₂.symm)
  omega

/-- The modules that contribute are those at the end of a route that leaves no module met at the
last level. Only a module at the end of `maxDepth` dependencies through distinct modules is met
there, and a warning names a module on every route to one that does not contribute. -/
theorem contributes_iff_shallow_route (ht : d.load n = some t) (hm : d.load x = some m) :
    (∀ ys, Route d.load n ys x → (∀ y ∈ ys.dropLast, ¬ MetLast d.load t y) →
      ∀ p ∈ m.paths, p ∈ (resolve d t).paths) ∧
    ((∃ k, (m, k) ∈ expansions d.load t) ↔
      ∃ ys, Route d.load n ys x ∧ ys.length ≤ maxDepth ∧
        ∀ y ∈ ys.dropLast, ¬ MetLast d.load t y) ∧
    (∀ y, MetLast d.load t y →
      ∃ ys, Route d.load n ys y ∧ ys.length = maxDepth ∧ (n :: ys).Nodup) ∧
    ((∀ k, (m, k) ∉ expansions d.load t) → ∀ ys, Route d.load n ys x →
      ∃ y ∈ ys, .depthExceeded y (maxDepth + 1) ∈ (resolve d t).warnings) := by
  refine ⟨?_, ⟨?_, ?_⟩, ?_, ?_⟩
  · intro ys hr hys p hp
    obtain ⟨k, hk⟩ := mem_expansions_of_shallow_route ht hm hr hys
    exact mem_paths_resolve.2 ⟨m, k, hk, hp⟩
  · rintro ⟨k, hk⟩
    rw [← Definitions.name_of_load hm]
    exact shallow_route_of_mem_expansions ht hk
  · rintro ⟨ys, hr, -, hys⟩
    exact mem_expansions_of_shallow_route ht hm hr hys
  · rintro y ⟨m', hm', rfl⟩
    obtain rfl := Definitions.name_of_load ht
    obtain ⟨-, ys, hr, hk, hd, -⟩ := route_of_mem_expansions Definitions.name_of_load ht hm'
    exact ⟨ys, hr, hk, hd⟩
  · intro hout ys hr
    rcases mem_expansions_or_warns ht hm hr with ⟨k, hk⟩ | ⟨-, hwarns⟩
    · exact absurd hk (hout k)
    · exact hwarns

/-! ### A long way round -/

/-- A chain of dependencies that goes on below the last level, and a dependency that leads from its
first module straight to the one at the last level. -/
structure Detour (load : String → Option Module) (c : Nat → Module) : Prop where
  loads : ∀ i ≤ maxDepth + 1, load (c i).name = some (c i)
  distinct : ∀ i ≤ maxDepth + 1, ∀ j ≤ maxDepth + 1, (c i).name = (c j).name → i = j
  start : (c 0).dependsOn = [(c 1).name, (c maxDepth).name]
  next : ∀ i, 1 ≤ i → i ≤ maxDepth → (c i).dependsOn = [(c (i + 1)).name]

namespace Detour

variable {load : String → Option Module} {c : Nat → Module}

theorem route (h : Detour load c) :
    Route load (c 0).name [(c maxDepth).name, (c (maxDepth + 1)).name] (c (maxDepth + 1)).name := by
  refine .cons ⟨c 0, h.loads 0 (Nat.zero_le _), ?_⟩ (.cons ⟨c maxDepth, ?_, ?_⟩ (.nil _))
  · simp [h.start]
  · exact h.loads maxDepth (Nat.le_succ _)
  · simp [h.next maxDepth (by decide) (Nat.le_refl _)]

theorem chain (h : Detour load c) : Chain load c where
  loads := fun i _ hi => h.loads i (Nat.le_succ_of_le hi)
  distinct := fun i _ hi j _ hj => h.distinct i hi j hj
  next := h.next

theorem visits_eq (h : Detour load c) :
    visits load (c 0) = chainVisits c 1 ++ [.repeated (c 0).name (c maxDepth).name] := by
  refine h.chain.visits_eq h.start (fun j hj hj' hn => ?_) fun seen hseen => ?_
  · have := h.distinct j hj' 0 (Nat.zero_le _) hn
    omega
  · -- The long way is gone first, and the short cut then leads to a name already seen.
    have hlast : (c maxDepth).name ∈ seen := (hseen _).2 (.inr ⟨maxDepth, by decide, by decide, rfl⟩)
    exact ⟨seen, .single (.repeated (e := ⟨(c 0).name, (c maxDepth).name, 1⟩) hlast)⟩

theorem eq_of_mem_expansions (h : Detour load c) (hm : (m, k) ∈ expansions load (c 0)) :
    ∃ i ≤ maxDepth, m = c i := by
  rcases mem_expansions.1 hm with ⟨rfl, -⟩ | hv
  · exact ⟨0, Nat.zero_le _, rfl⟩
  · rw [h.visits_eq, List.mem_append] at hv
    simp only [expanded_mem_chainVisits, List.mem_singleton, reduceCtorEq, or_false] at hv
    obtain ⟨-, hk, rfl⟩ := hv
    exact ⟨k, hk, rfl⟩

theorem not_expanded (h : Detour load c) : (c (maxDepth + 1), k) ∉ expansions load (c 0) := by
  intro hm
  obtain ⟨i, hi, he⟩ := h.eq_of_mem_expansions hm
  have := h.distinct _ (Nat.le_refl _) i (Nat.le_succ_of_le hi) (congrArg Module.name he)
  omega

end Detour

/-- Modules `0` to `51`, each with the next for a dependency, and `50` for a second one of `0`. All
own `src` but the last one, which owns `lib`. -/
def stop (i : Nat) : Module where
  name := Nat.repr i
  paths := [if i ≤ maxDepth then "src" else "lib"]
  dependsOn := (if i = 0 then [1, maxDepth] else if i ≤ maxDepth then [i + 1] else []).map Nat.repr

def longWay : Definitions := .ofModules ((List.range (maxDepth + 2)).map stop)

theorem declarable_stop {i : Nat} (hi : i ≤ maxDepth + 1) : Definitions.Declarable (stop i) where
  paths_ne_nil := by simp [stop]
  normal := by
    have h : Path.normalize "src" = some "src" ∧ Path.normalize "lib" = some "lib" := by
      decide +kernel
    intro p hp
    obtain rfl := List.mem_singleton.1 hp
    split
    · exact h.1
    · exact h.2
  trimmed := by
    have h : ∀ j ≤ maxDepth + 1, Text.trim (Nat.repr j) = Nat.repr j ∧ Nat.repr j ≠ "" := by
      decide +kernel
    intro x hx
    obtain ⟨j, hj, rfl⟩ := List.mem_map.1 hx
    apply h
    split at hj
    · simp only [List.mem_cons, List.not_mem_nil, or_false] at hj
      rcases hj with rfl | rfl <;> decide
    · split at hj
      · have := List.mem_singleton.1 hj
        omega
      · exact absurd hj List.not_mem_nil
  own := rfl
  independent := by
    by_cases h : i ≤ maxDepth
    · refine .inl ?_
      by_cases h0 : i = 0 <;> simp [stop, h, h0]
    · obtain rfl : i = maxDepth + 1 := by omega
      exact .inr (by decide +kernel)

theorem load_longWay (i : Nat) (hi : i ≤ maxDepth + 1) :
    longWay.load (stop i).name = some (stop i) := by
  refine Definitions.load_ofModules ?_ ?_ (declarable_stop hi)
  · rw [List.map_map]
    exact List.nodup_range.map fun i j h => Nat.repr_inj.1 h
  · exact List.mem_map_of_mem (List.mem_range.2 (Nat.lt_succ_of_le hi))

theorem detour_longWay : Detour longWay.load stop where
  loads := load_longWay
  distinct := fun i _ j _ h => Nat.repr_inj.1 h
  start := rfl
  next := by
    intro i hi hi'
    simp [stop, hi', Nat.ne_of_gt hi]

/-- Module `51` is two dependencies away from `0` and does not contribute. -/
theorem longWay_drops_module :
    ∃ t m, longWay.load "0" = some t ∧ longWay.load "51" = some m ∧
      Route longWay.load "0" ["50", "51"] "51" ∧ ["50", "51"].length ≤ maxDepth ∧
      ∃ p ∈ m.paths, p ∉ (resolve longWay t).paths := by
  refine ⟨stop 0, stop 51, load_longWay 0 (by decide), load_longWay 51 (by decide),
    detour_longWay.route, by decide, "lib", by simp [stop, maxDepth], ?_⟩
  intro hp
  obtain ⟨m, k, hm, hp⟩ := mem_paths_resolve.1 hp
  obtain ⟨i, hi, rfl⟩ := detour_longWay.eq_of_mem_expansions hm
  simp [stop, hi] at hp

/-- The short way to module `51` has a module that a warning names. -/
theorem longWay_warns_on_route :
    ∃ t m, longWay.load "0" = some t ∧ longWay.load "51" = some m ∧
      Route longWay.load "0" ["50", "51"] "51" ∧ (∀ k, (m, k) ∉ expansions longWay.load t) ∧
      ∃ y ∈ ["50", "51"], .depthExceeded y (maxDepth + 1) ∈ (resolve longWay t).warnings := by
  have ht : longWay.load "0" = some (stop 0) := load_longWay 0 (by decide)
  have hm : longWay.load "51" = some (stop 51) := load_longWay 51 (by decide)
  have hr : Route longWay.load "0" ["50", "51"] "51" := detour_longWay.route
  have hout : ∀ k, (stop 51, k) ∉ expansions longWay.load (stop 0) :=
    fun _ => detour_longWay.not_expanded
  obtain ⟨-, -, -, hwarns⟩ := contributes_iff_shallow_route ht hm
  exact ⟨stop 0, stop 51, ht, hm, hr, hout, hwarns hout ["50", "51"] hr⟩

end ModuleGraph
