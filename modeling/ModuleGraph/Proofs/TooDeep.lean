import ModuleGraph.Proofs.Depth

/-!
# What a depth warning tells

The modules on the way to a pending entry are distinct and as many as its depth. So an entry below
the last level has a chain of distinct modules behind it, one for each level, and a catalog with no
more modules than levels never reports one.
-/

namespace ModuleGraph

section Routes

variable {load : String → Option Module} {x y z : String} {ys : List String}

/-- A module that has a dependency loads, and so does every module on a route to it. -/
theorem Route.loads (h : Route load x ys y) (hz : DependsOn load y z) :
    ∀ w ∈ x :: ys, ∃ m, load w = some m := by
  have hload : ∀ {u v}, DependsOn load u v → ∃ m, load u = some m := by
    rintro u v ⟨m, hm, -⟩
    exact ⟨m, hm⟩
  induction h with
  | nil => exact List.forall_mem_singleton.2 (hload hz)
  | cons hxy _ ih => exact List.forall_mem_cons.2 ⟨hload hxy, ih hz⟩

end Routes

namespace Resolution

variable {load : String → Option Module} {target : Module} {x : String} {k : Nat}

/-- An entry that is too deep stands at the end of a route with a module for each level, and names
none of these. -/
theorem route_of_tooDeep (named : ∀ {x : String} {m : Module}, load x = some m → m.name = x)
    (ht : load target.name = some target) (h : .tooDeep x k ∈ visits load target) :
    ∃ ys y, Route load target.name ys y ∧ DependsOn load y x ∧ ys.length = maxDepth ∧
      (target.name :: ys).Nodup ∧ x ∉ target.name :: ys := by
  have hdepth := depth_of_tooDeep h
  obtain ⟨seen, hrun⟩ := run_visits load target
  obtain ⟨before, after, s₁, s₂, -, hb, hs, -⟩ := hrun.cut h
  cases hs with
  | @tooDeep e rest _ hn _ =>
    obtain ⟨hd, ys, k', hk', htrail⟩ := (tracked_initial ht).run named hb e List.mem_cons_self
    have hlevel : k' = maxDepth := by omega
    exact ⟨ys, e.referrer, htrail.route, hd, htrail.length_eq.trans hlevel, htrail.distinct,
      fun hx => hn (htrail.seen hx)⟩

end Resolution

open Resolution

variable {d : Definitions} {t : Module} {n : String}

theorem length_le_length_names {xs : List String} (hd : xs.Nodup)
    (hl : ∀ x ∈ xs, ∃ m, d.load x = some m) : xs.length ≤ d.names.length := by
  have hlisted : xs ⊆ d.names := fun x hx => Definitions.mem_names_iff.2 (hl x hx)
  exact (List.subperm_of_subset hd hlisted).length_le

/-- A depth warning is about level 51, and its module is reached from the target through 50 more
modules, all of them distinct. In a catalog of at most 50 modules there is none. -/
theorem depth_warning_shows_chain (ht : d.load n = some t) :
    (∀ x k, .depthExceeded x k ∈ (resolve d t).warnings → k = 51 ∧
      ∃ ys, ys.length = 50 ∧ Route d.load t.name (ys ++ [x]) x ∧
        (∀ y ∈ t.name :: ys, ∃ m, d.load y = some m) ∧ (t.name :: ys).Nodup ∧
        x ∉ t.name :: ys) ∧
    (d.names.length ≤ 50 → ∀ x k, .depthExceeded x k ∉ (resolve d t).warnings) := by
  obtain rfl := Definitions.name_of_load ht
  refine ⟨fun x k h => ?_, fun hfew x k h => ?_⟩
  · have hv : .tooDeep x k ∈ visits d.load t := (mem_warnings_iff rfl).1 h
    obtain ⟨ys, y, hr, hx, hlength, hdistinct, hnew⟩ :=
      route_of_tooDeep Definitions.name_of_load ht hv
    exact ⟨depth_of_tooDeep hv, ys, hlength, hr.snoc hx, hr.loads hx, hdistinct, hnew⟩
  · have hv : .tooDeep x k ∈ visits d.load t := (mem_warnings_iff rfl).1 h
    obtain ⟨ys, y, hr, hx, hlength, hdistinct, -⟩ :=
      route_of_tooDeep Definitions.name_of_load ht hv
    have hmany : (t.name :: ys).length ≤ d.names.length :=
      length_le_length_names hdistinct (hr.loads hx)
    have hlevels : ys.length = 50 := hlength
    rw [List.length_cons] at hmany
    omega

/-- Module `51` of the long way round is too deep, 50 modules after `0`; the small repository has no
chain of that length. -/
theorem longWay_shows_chain :
    (longWay.load "0" = some (stop 0) ∧
      .depthExceeded "51" 51 ∈ (resolve longWay (stop 0)).warnings ∧
      ∃ ys, ys.length = 50 ∧ Route longWay.load "0" (ys ++ ["51"]) "51" ∧
        ("0" :: ys).Nodup ∧ "51" ∉ "0" :: ys) ∧
    monorepo.load "app" = some app ∧ monorepo.names.length ≤ 50 ∧
      ∀ x k, .depthExceeded x k ∉ (resolve monorepo app).warnings := by
  have ht : longWay.load "0" = some (stop 0) := load_longWay 0 (by decide)
  have hdeep : .tooDeep "51" 51 ∈ visits longWay.load (stop 0) := by
    rw [detour_longWay.visits_eq]
    exact List.mem_append_left _ (List.mem_append_right _ List.mem_cons_self)
  have hwarns : .depthExceeded "51" 51 ∈ (resolve longWay (stop 0)).warnings :=
    (mem_warnings_iff rfl).2 hdeep
  obtain ⟨-, ys, hlength, hr, -, hdistinct, hnew⟩ := (depth_warning_shows_chain ht).1 "51" 51 hwarns
  have hfew : monorepo.names.length ≤ 50 := by decide +kernel
  exact ⟨⟨ht, hwarns, ys, hlength, hr, hdistinct, hnew⟩, load_monorepo_app, hfew,
    (depth_warning_shows_chain load_monorepo_app).2 hfew⟩

end ModuleGraph
