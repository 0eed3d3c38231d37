import ModuleGraph.Proofs.Traversal

/-!
# Trails

How the traversal came to a module, and where it stops. Every expanded module ends a route of
distinct modules from the target, each expanded at a level of its own; and every route from the
target leads to an expanded module unless it leaves one that was met at the last level.
-/

namespace ModuleGraph.Resolution

variable {load : String → Option Module} {root x y : String} {k : Nat}

/-- The way from the root to a module met at level `k`, as far as the visits made so far tell. -/
structure Trail (load : String → Option Module) (root : String) (past : List Visit)
    (seen : List String) (x : String) (k : Nat) (ys : List String) : Prop where
  route : Route load root ys x
  length_eq : ys.length = k
  distinct : (root :: ys).Nodup
  seen : root :: ys ⊆ seen
  shallow : ∀ y ∈ ys, ∃ m l, m.name = y ∧ l ≤ k ∧ .expanded m l ∈ past

namespace Trail

variable {past past' : List Visit} {seen seen' ys : List String} {m : Module}

theorem start (h : root ∈ seen) : Trail load root past seen root 0 [] where
  route := .nil root
  length_eq := rfl
  distinct := List.nodup_singleton root
  seen := List.cons_subset.2 ⟨h, List.nil_subset _⟩
  shallow := fun _ hy => absurd hy List.not_mem_nil

theorem mono (h : Trail load root past seen x k ys) (hp : past ⊆ past') (hs : seen ⊆ seen') :
    Trail load root past' seen' x k ys where
  route := h.route
  length_eq := h.length_eq
  distinct := h.distinct
  seen := List.Subset.trans h.seen hs
  shallow := by
    intro y hy
    obtain ⟨m, l, hm, hl, hv⟩ := h.shallow y hy
    exact ⟨m, l, hm, hl, hp hv⟩

theorem extend (h : Trail load root past seen x k ys) (hx : DependsOn load x m.name)
    (hm : m.name ∉ seen) :
    Trail load root (past ++ [.expanded m (k + 1)]) (m.name :: seen) m.name (k + 1)
      (ys ++ [m.name]) where
  route := h.route.snoc hx
  length_eq := by simp [h.length_eq]
  distinct := by
    rw [← List.cons_append]
    refine h.distinct.append (List.nodup_singleton _) ?_
    -- The modules of the trail are seen, and the new one is not.
    intro z hz hz'
    rw [List.mem_singleton.1 hz'] at hz
    exact hm (h.seen hz)
  seen := by
    rw [← List.cons_append]
    apply List.append_subset.2
    exact ⟨List.Subset.trans h.seen (List.subset_cons_self _ _), by simp⟩
  shallow := by
    intro z hz
    rcases List.mem_append.1 hz with hz | hz
    · obtain ⟨m', l, hm', hl, hv⟩ := h.shallow z hz
      exact ⟨m', l, hm', Nat.le_succ_of_le hl, List.mem_append_left _ hv⟩
    · rw [List.mem_singleton.1 hz]
      exact ⟨m, k + 1, rfl, Nat.le_refl _, List.mem_append_right _ List.mem_cons_self⟩

end Trail

/-- Every pending entry is a dependency of a module at the end of a trail. -/
def Tracked (load : String → Option Module) (root : String) (past : List Visit) (s : State) :
    Prop :=
  ∀ e ∈ s.pending, DependsOn load e.referrer e.name ∧
    ∃ ys k, e.depth = k + 1 ∧ Trail load root past s.seen e.referrer k ys

theorem mem_entries {m : Module} {e : Entry} :
    e ∈ entries m k ↔ ∃ name ∈ m.dependsOn, e = ⟨m.name, name, k⟩ := by
  simp only [entries, List.mem_map, eq_comm]

theorem tracked_entries {m : Module} {past : List Visit} {seen ys : List String}
    (hl : load m.name = some m) (h : Trail load root past seen m.name k ys) {rest : List Entry}
    (hr : Tracked load root past ⟨rest, seen⟩) :
    Tracked load root past ⟨entries m (k + 1) ++ rest, seen⟩ := by
  intro e he
  rcases List.mem_append.1 he with he | he
  · obtain ⟨name, hn, rfl⟩ := mem_entries.1 he
    exact ⟨⟨m, hl, hn⟩, ys, k, rfl, h⟩
  · exact hr e he

variable {s s' : State} {v : Visit} {past vs : List Visit} {target m : Module}

theorem tracked_initial (ht : load target.name = some target) :
    Tracked load target.name [] (.initial target) := by
  have hstart : Trail load target.name [] [target.name] target.name 0 [] :=
    .start List.mem_cons_self
  have hrest : Tracked load target.name [] ⟨[], [target.name]⟩ :=
    fun _ he => absurd he List.not_mem_nil
  simpa [State.initial] using tracked_entries ht hstart hrest

theorem Tracked.tail {e : Entry} {rest : List Entry} {seen seen' : List String}
    (h : Tracked load root past ⟨e :: rest, seen⟩) (hs : seen ⊆ seen') (v : Visit) :
    Tracked load root (past ++ [v]) ⟨rest, seen'⟩ := by
  intro e' he'
  obtain ⟨hd, ys, k, hk, ht⟩ := h e' (List.mem_cons_of_mem _ he')
  exact ⟨hd, ys, k, hk, ht.mono (List.subset_append_left _ _) hs⟩

section Named

variable (named : ∀ {x : String} {m : Module}, load x = some m → m.name = x)
include named

theorem Tracked.step (h : Tracked load root past s) (hs : Step load s v s') :
    Tracked load root (past ++ [v]) s' := by
  cases hs with
  | repeated | tooDeep => exact h.tail (List.Subset.refl _) _
  | missing => exact h.tail (List.subset_cons_self _ _) _
  | @expanded e rest seen m hn _ hl =>
    obtain ⟨hd, ys, k, hk, ht⟩ := h e List.mem_cons_self
    have hr := h.tail (List.subset_cons_self e.name _) (.expanded m e.depth)
    have hm := named hl
    rw [← hm] at hd hn hl hr ⊢
    rw [hk] at hr ⊢
    exact tracked_entries hl (ht.extend hd hn) hr

theorem Tracked.run (h : Tracked load root past s) (hr : Run load s vs s') :
    Tracked load root (past ++ vs) s' := by
  induction hr generalizing past with
  | nil => simpa using h
  | cons hs _ ih => simpa using ih (h.step named hs)

/-- A module is expanded at the end of a route of distinct modules that is as long as its level
tells; those before it were met at lower levels. -/
theorem route_of_mem_expansions (ht : load target.name = some target)
    (hm : (m, k) ∈ expansions load target) :
    k ≤ maxDepth ∧ ∃ ys, Route load target.name ys m.name ∧ ys.length = k ∧
      (target.name :: ys).Nodup ∧
      ∀ y ∈ ys.dropLast, ∃ m' l, (m', l) ∈ expansions load target ∧ m'.name = y ∧ l < k := by
  rcases mem_expansions.1 hm with ⟨rfl, rfl⟩ | hv
  · exact ⟨Nat.zero_le _, [], .nil _, rfl, List.nodup_singleton _, by simp⟩
  obtain ⟨seen, hrun⟩ := run_visits load target
  obtain ⟨before, after, s₁, s₂, hvs, hb, hs, -⟩ := hrun.cut hv
  cases hs with
  | @expanded e rest seen₁ _ hn hk hl =>
    obtain ⟨hd, ys, k', hk', htrail⟩ := (tracked_initial ht).run named hb e List.mem_cons_self
    have hm := named hl
    rw [← hm] at hd hn
    have hlong := htrail.extend hd hn
    refine ⟨hk, ys ++ [m.name], hlong.route, by rw [hlong.length_eq, hk'], hlong.distinct, ?_⟩
    intro y hy
    rw [List.dropLast_concat] at hy
    obtain ⟨m', l, hm', hl', hpast⟩ := htrail.shallow y hy
    refine ⟨m', l, mem_expansions.2 (.inr ?_), hm', by omega⟩
    rw [hvs]
    exact List.mem_append_left _ (by simpa using hpast)

theorem loads_of_mem_expansions (ht : load target.name = some target)
    (hm : (m, k) ∈ expansions load target) : load m.name = some m := by
  rcases mem_expansions.1 hm with ⟨rfl, -⟩ | hv
  · exact ht
  · obtain ⟨seen, hrun⟩ := run_visits load target
    exact (hrun.expanded_loads named hv).1

end Named

/-! ### Where the traversal stops -/

/-- The traversal met the name at the last level that it follows. -/
def MetLast (load : String → Option Module) (target : Module) (y : String) : Prop :=
  ∃ m, (m, maxDepth) ∈ expansions load target ∧ m.name = y

/-- A dependency of an expanded module is expanded too if it loads, except below the last level. -/
theorem expands_dependency (ht : load target.name = some target)
    (hm : (m, k) ∈ expansions load target) {m' : Module} (hy : y ∈ m.dependsOn)
    (hl : load y = some m') :
    (∃ l, (m', l) ∈ expansions load target) ∨
      k = maxDepth ∧ .tooDeep y (maxDepth + 1) ∈ visits load target := by
  obtain ⟨seen, hrun⟩ := run_visits load target
  have hseen : y ∈ seen → ∃ l, (m', l) ∈ expansions load target := by
    intro h
    rcases hrun.seen_origin h with h | h | ⟨m₁, l, h, hv⟩
    · obtain rfl := List.mem_singleton.1 h
      rw [ht] at hl
      exact ⟨0, mem_expansions.2 (.inl ⟨(Option.some.inj hl).symm, rfl⟩)⟩
    · rw [hl] at h
      exact absurd h (by simp)
    · rw [hl] at h
      obtain rfl := Option.some.inj h
      exact ⟨l, mem_expansions.2 (.inr hv)⟩
  rcases mem_expansions.1 hm with ⟨rfl, rfl⟩ | hv
  · rcases hrun.settles rfl (mem_entries.2 ⟨y, hy, rfl⟩) with h | ⟨h, -⟩
    · exact .inl (hseen h)
    · exact absurd h (Nat.not_lt.2 (show 1 ≤ maxDepth by decide))
  · obtain ⟨before, after, s₁, s₂, hvs, -, hs, hafter⟩ := hrun.cut hv
    cases hs with
    | @expanded e rest _ _ _ hk _ =>
      have hpending : (⟨m.name, y, e.depth + 1⟩ : Entry) ∈ entries m (e.depth + 1) ++ rest :=
        List.mem_append_left _ (mem_entries.2 ⟨y, hy, rfl⟩)
      rcases hafter.settles rfl hpending with h | ⟨h, hdeep⟩
      · exact .inl (hseen h)
      · have hlast : e.depth = maxDepth := Nat.le_antisymm hk (Nat.le_of_lt_succ h)
        refine .inr ⟨hlast, ?_⟩
        rw [hvs, ← hlast]
        exact List.mem_append_right _ (List.mem_cons_of_mem _ hdeep)

/-- A route from an expanded module leads to another one, or it leaves a module met at the last
level and holds a name that was too deep. -/
theorem expands_along_route (named : ∀ {x : String} {m : Module}, load x = some m → m.name = x)
    (ht : load target.name = some target) {ys : List String} {m' : Module}
    (hr : Route load x ys y) (hm : (m, k) ∈ expansions load target) (hx : m.name = x)
    (hl : load y = some m') :
    (∃ l, (m', l) ∈ expansions load target) ∨
      ∃ u w, (u = x ∨ u ∈ ys.dropLast) ∧ MetLast load target u ∧ w ∈ ys ∧
        .tooDeep w (maxDepth + 1) ∈ visits load target := by
  induction hr generalizing m k with
  | nil x =>
    have h := loads_of_mem_expansions named ht hm
    rw [hx, hl] at h
    exact .inl ⟨k, Option.some.inj h ▸ hm⟩
  | @cons x z y ys hxz hroute ih =>
    obtain ⟨m₁, hl₁, hz⟩ := hxz
    have h := loads_of_mem_expansions named ht hm
    rw [hx, hl₁] at h
    obtain rfl := Option.some.inj h
    obtain ⟨m₂, hl₂⟩ := hroute.source_loads hl
    rcases expands_dependency ht hm hz hl₂ with ⟨l, hm₂⟩ | ⟨rfl, hdeep⟩
    · rcases ih hm₂ (named hl₂) hl with h | ⟨u, w, hu, hlast, hw, hdeep⟩
      · exact .inl h
      · refine .inr ⟨u, w, .inr ?_, hlast, List.mem_cons_of_mem _ hw, hdeep⟩
        rw [List.dropLast_cons_of_ne_nil (List.ne_nil_of_mem hw)]
        exact List.mem_cons.2 hu
    · exact .inr ⟨x, z, .inl rfl, ⟨m₁, hm, hx⟩, List.mem_cons_self, hdeep⟩

end ModuleGraph.Resolution
