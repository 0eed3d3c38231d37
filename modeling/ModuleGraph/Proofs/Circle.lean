import ModuleGraph.Proofs.Accounting
import ModuleGraph.Proofs.Depth
import Mathlib.Data.List.Rotate

/-!
# Circles of dependencies

A traversal marks a module as seen before it takes the entries of any module expanded later. Of a
circle of expanded modules one is expanded first, and the entry by which another one closes the
circle is taken after that, so it is reported. Without such reports every expanded dependency has a
single entry, but for those that lay below the last level.
-/

namespace ModuleGraph

namespace Resolution

variable {load : String → Option Module} {s s' : State} {v : Visit} {vs ws : List Visit}
  {target m : Module} {x : String} {k : Nat}

/-! ### Entries that name a seen module -/

theorem Step.repeats {s₁ : State} {e : Entry} (h : Step load s v s₁) (he : e ∈ s.pending)
    (hm : e.name ∈ s.seen) : v = .repeated e.referrer e.name ∨ e ∈ s₁.pending := by
  cases h with
  | repeated =>
    rcases List.mem_cons.1 he with rfl | he
    · exact .inl rfl
    · exact .inr he
  | tooDeep hn | missing hn =>
    rcases List.mem_cons.1 he with rfl | he
    · exact absurd hm hn
    · exact .inr he
  | expanded hn =>
    rcases List.mem_cons.1 he with rfl | he
    · exact absurd hm hn
    · exact .inr (List.mem_append_right _ he)

theorem Run.repeats {e : Entry} (h : Run load s vs s') (hp : s'.pending = [])
    (he : e ∈ s.pending) (hm : e.name ∈ s.seen) : .repeated e.referrer e.name ∈ vs := by
  induction h with
  | nil =>
    rw [hp] at he
    exact absurd he List.not_mem_nil
  | cons hs _ ih =>
    rcases hs.repeats he hm with rfl | he
    · exact List.mem_cons_self
    · exact List.mem_cons_of_mem _ (ih hp he (hs.seen_subset hm))

/-- A module expanded in the run names `x`, which was seen before it. -/
theorem Run.repeats_below (h : Run load s vs s') (hp : s'.pending = []) (hx : x ∈ s.seen)
    (hv : .expanded m k ∈ vs) (hd : x ∈ m.dependsOn) : .repeated m.name x ∈ vs := by
  obtain ⟨before, after, s₁, s₂, rfl, hb, hs, ha⟩ := h.cut hv
  cases hs with
  | @expanded e rest _ _ _ _ _ =>
    have hentry : (⟨m.name, x, e.depth + 1⟩ : Entry) ∈ entries m (e.depth + 1) ++ rest :=
      List.mem_append_left _ (mem_entries.2 ⟨x, hd, rfl⟩)
    have hseen := List.mem_cons_of_mem e.name (hb.seen_subset hx)
    exact List.mem_append_right _ (List.mem_cons_of_mem _ (ha.repeats hp hentry hseen))

theorem Run.split (h : Run load s (vs ++ ws) s') :
    ∃ s₁, Run load s vs s₁ ∧ Run load s₁ ws s' := by
  induction vs generalizing s with
  | nil => exact ⟨s, .nil s, h⟩
  | cons v vs ih =>
    cases h with
    | cons hs hr =>
      obtain ⟨s₁, hvs, hws⟩ := ih hr
      exact ⟨s₁, .cons hs hvs, hws⟩

theorem repeats_target (hm : (m, k) ∈ expansions load target) (hd : target.name ∈ m.dependsOn) :
    .repeated m.name target.name ∈ visits load target := by
  obtain ⟨seen, hrun⟩ := run_visits load target
  rcases mem_expansions.1 hm with ⟨rfl, -⟩ | hv
  · exact hrun.repeats rfl (mem_entries.2 ⟨_, hd, rfl⟩) List.mem_cons_self
  · exact hrun.repeats_below rfl List.mem_cons_self hv hd

/-! ### Circles -/

/-- Each module with the next one, and the last with the first. -/
def links (circle : List Module) : List (Module × Module) := circle.zip (circle.rotate 1)

/-- A circle of dependencies among the modules that contribute. It may pass a module twice. -/
structure IsCircle (load : String → Option Module) (target : Module) (circle : List Module) :
    Prop where
  nonempty : circle ≠ []
  expanded : ∀ m ∈ circle, ∃ k, (m, k) ∈ expansions load target
  linked : ∀ l ∈ links circle, l.2.name ∈ l.1.dependsOn

theorem exists_link_to {circle : List Module} (h : m ∈ circle) :
    ∃ p ∈ circle, (p, m) ∈ links circle := by
  obtain ⟨i, hi, rfl⟩ := List.getElem_of_mem (List.mem_rotate.2 h : m ∈ circle.rotate 1)
  have hi' : i < circle.length := by rwa [List.length_rotate] at hi
  refine ⟨circle[i], List.getElem_mem hi', ?_⟩
  rw [links, List.mem_iff_getElem]
  exact ⟨i, by simpa using hi', List.getElem_zip⟩

def Visit.enters (circle : List Module) (v : Visit) : Bool :=
  v.expansion?.any fun x => x.1 ∈ circle

theorem Visit.enters_iff {circle : List Module} :
    v.enters circle = true ↔ ∃ m ∈ circle, ∃ k, v = .expanded m k := by
  cases v <;> simp [Visit.enters, Visit.expansion?]

/-- One member of a circle is expanded before the others. -/
theorem exists_first_of_circle {circle : List Module} (hne : circle ≠ [])
    (h : ∀ m ∈ circle, ∃ k, .expanded m k ∈ vs) :
    ∃ m ∈ circle, ∃ k before after, vs = before ++ .expanded m k :: after ∧
      ∀ p ∈ circle, ∃ j, .expanded p j ∈ Visit.expanded m k :: after := by
  have hsome : (vs.find? (Visit.enters circle)).isSome := by
    obtain ⟨m, hm⟩ := List.exists_mem_of_ne_nil circle hne
    obtain ⟨k, hk⟩ := h m hm
    exact List.find?_isSome.2 ⟨_, hk, Visit.enters_iff.2 ⟨m, hm, k, rfl⟩⟩
  obtain ⟨v, hv⟩ := Option.isSome_iff_exists.1 hsome
  obtain ⟨henters, before, after, rfl, hfirst⟩ := List.find?_eq_some_iff_append.1 hv
  obtain ⟨m, hm, k, rfl⟩ := Visit.enters_iff.1 henters
  refine ⟨m, hm, k, before, after, rfl, fun p hp => ?_⟩
  obtain ⟨j, hj⟩ := h p hp
  rcases List.mem_append.1 hj with hbefore | hj
  · have hnot := hfirst _ hbefore
    rw [Visit.enters_iff.2 ⟨p, hp, j, rfl⟩] at hnot
    exact absurd hnot (by decide)
  · exact ⟨j, hj⟩

section Named

variable (named : ∀ {x : String} {m : Module}, load x = some m → m.name = x)
include named

/-- From the expansion of a module on, entries that name it are repeated, its own among them. -/
theorem Run.repeats_first {p : Module} {j : Nat} (h : Run load s (.expanded m k :: vs) s')
    (hp : s'.pending = []) (hv : .expanded p j ∈ Visit.expanded m k :: vs)
    (hd : m.name ∈ p.dependsOn) : .repeated p.name m.name ∈ vs := by
  cases h with
  | cons hs hr =>
    cases hs with
    | @expanded e rest seen _ _ _ hl =>
      have hseen : m.name ∈ e.name :: seen := List.mem_cons.2 (.inl (named hl))
      rcases List.mem_cons.1 hv with he | hv
      · obtain ⟨rfl, -⟩ := Visit.expanded.inj he
        exact hr.repeats hp (List.mem_append_left _ (mem_entries.2 ⟨_, hd, rfl⟩)) hseen
      · exact hr.repeats_below hp hseen hv hd

theorem IsCircle.repeats {circle : List Module} (h : IsCircle load target circle) :
    ∃ l ∈ links circle, .repeated l.1.name l.2.name ∈ visits load target := by
  by_cases ht : target ∈ circle
  · obtain ⟨p, hp, hl⟩ := exists_link_to ht
    obtain ⟨k, hk⟩ := h.expanded p hp
    exact ⟨_, hl, repeats_target hk (h.linked _ hl)⟩
  · have hvisited : ∀ m ∈ circle, ∃ k, .expanded m k ∈ visits load target := by
      intro m hm
      obtain ⟨k, hk⟩ := h.expanded m hm
      rcases mem_expansions.1 hk with ⟨rfl, -⟩ | hv
      · exact absurd hm ht
      · exact ⟨k, hv⟩
    obtain ⟨m, hm, k, before, after, hvs, hrest⟩ := exists_first_of_circle h.nonempty hvisited
    obtain ⟨p, hp, hl⟩ := exists_link_to hm
    obtain ⟨j, hj⟩ := hrest p hp
    obtain ⟨seen, hrun⟩ := run_visits load target
    rw [hvs] at hrun ⊢
    obtain ⟨s₁, -, hfirst⟩ := hrun.split
    have hrepeated := hfirst.repeats_first named rfl hj (h.linked _ hl)
    exact ⟨_, hl, List.mem_append_right _ (List.mem_cons_of_mem _ hrepeated)⟩

/-! ### Single entries -/

omit named in
/-- Visits about `x` that drop no repeated and no missing entry expand it or find it too deep. -/
theorem count_name (hrepeated : ∀ r, .repeated r x ∉ vs) (hmissing : ∀ r, .missing r x ∉ vs)
    (hdeep : ∀ k, .tooDeep x k ∈ vs → k = maxDepth + 1) :
    (vs.map Visit.name).count x = ((vs.filterMap Visit.expansion?).map (·.1.name)).count x +
      vs.count (.tooDeep x (maxDepth + 1)) := by
  induction vs with
  | nil => rfl
  | cons v vs ih =>
    have hvs := ih (fun r h => hrepeated r (List.mem_cons_of_mem _ h))
      (fun r h => hmissing r (List.mem_cons_of_mem _ h))
      (fun k h => hdeep k (List.mem_cons_of_mem _ h))
    rw [List.map_cons, List.filterMap_cons, List.count_cons, List.count_cons, hvs]
    cases v with
    | repeated r y =>
      have hy : y ≠ x := fun h => hrepeated r (h ▸ List.mem_cons_self)
      simp [Visit.name, Visit.expansion?, hy]
    | missing r y =>
      have hy : y ≠ x := fun h => hmissing r (h ▸ List.mem_cons_self)
      simp [Visit.name, Visit.expansion?, hy]
    | tooDeep y k =>
      obtain rfl | hy := eq_or_ne y x
      · obtain rfl := hdeep k List.mem_cons_self
        simp [Visit.name, Visit.expansion?, Nat.add_assoc]
      · simp [Visit.name, Visit.expansion?, hy]
    | expanded m k =>
      simp only [Visit.name, Visit.expansion?, List.map_cons, List.count_cons, beq_iff_eq,
        reduceCtorEq, if_false]
      omega

theorem count_references (hrepeated : ∀ r, .repeated r m.name ∉ visits load target)
    (hm : .expanded m k ∈ visits load target) :
    (references load target).count m.name =
      (visits load target).count (.tooDeep m.name (maxDepth + 1)) + 1 := by
  obtain ⟨seen, hrun⟩ := run_visits load target
  have hloads := (hrun.expanded_loads named hm).1
  have hmissing : ∀ r, .missing r m.name ∉ visits load target := by
    intro r hr
    rw [load_of_missing hr] at hloads
    cases hloads
  have hone : (((visits load target).filterMap Visit.expansion?).map (·.1.name)).count m.name = 1 := by
    refine List.count_eq_one_of_mem (hrun.nodup_expanded named) ?_
    exact List.mem_map.2 ⟨(m, k), List.mem_filterMap.2 ⟨_, hm, rfl⟩, rfl⟩
  rw [← (perm_references named target).count_eq, count_name hrepeated hmissing
    fun _ => depth_of_tooDeep, hone, Nat.add_comm]

end Named

end Resolution

open Resolution

/-- Every circle of expanded modules has an entry that is reported as circular. Where none is
reported, no entry names the target, and all entries but one that name an expanded dependency were
too deep, each with a warning of its own. -/
theorem circle_is_reported (d : Definitions) (t : Module) :
    (∀ circle, IsCircle d.load t circle →
      ∃ l ∈ links circle,
        .circularDependency l.1.name l.2.name ∈ (resolve d t).warnings) ∧
    ((∀ r x, .circularDependency r x ∉ (resolve d t).warnings) →
      t.name ∉ references d.load t ∧
      ∀ m k, .expanded m k ∈ visits d.load t →
        (references d.load t).count m.name =
          (resolve d t).warnings.count (.depthExceeded m.name (maxDepth + 1)) + 1) := by
  refine ⟨fun circle h => ?_, fun hnone => ⟨fun ht => ?_, fun m k hm => ?_⟩⟩
  · obtain ⟨l, hl, hr⟩ := h.repeats Definitions.name_of_load
    exact ⟨l, hl, (mem_warnings_iff rfl).2 hr⟩
  · obtain ⟨⟨m, k⟩, hm, hd⟩ := List.mem_flatMap.1 ht
    exact hnone _ _ ((mem_warnings_iff rfl).2 (repeats_target hm hd))
  · have hrepeated : ∀ r, .repeated r m.name ∉ visits d.load t :=
      fun r hr => hnone _ _ ((mem_warnings_iff rfl).2 hr)
    have hwarnings : (resolve d t).warnings.count (.depthExceeded m.name (maxDepth + 1)) =
        (visits d.load t).count (.tooDeep m.name (maxDepth + 1)) := count_warnings rfl
    rw [hwarnings, count_references Definitions.name_of_load hrepeated hm]

/-! ### A short cut below the last level -/

def shortcutStart : Module := { stop 0 with dependsOn := ["1", "51"] }

/-- Modules `0` to `51`, each with the next for a dependency, and `51` for a second one of `0`. -/
def shortcut : Definitions :=
  .ofModules (shortcutStart :: (List.range' 1 (maxDepth + 1)).map stop)

theorem load_shortcut {m : Module}
    (hm : m ∈ shortcutStart :: (List.range' 1 (maxDepth + 1)).map stop) :
    shortcut.load m.name = some m := by
  refine Definitions.load_ofModules ?_ hm ?_
  · have hnames : (shortcutStart :: (List.range' 1 (maxDepth + 1)).map stop).map Module.name =
        (List.range (maxDepth + 2)).map Nat.repr := by
      decide +kernel
    rw [hnames]
    exact List.nodup_range.map fun i j h => Nat.repr_inj.1 h
  · rcases List.mem_cons.1 hm with rfl | hm
    · have hstop := declarable_stop (Nat.zero_le (maxDepth + 1))
      exact { hstop with
        trimmed := by decide +kernel
        independent := .inl (List.cons_ne_nil _ _) }
    · obtain ⟨i, hi, rfl⟩ := List.mem_map.1 hm
      obtain ⟨-, hi⟩ := List.mem_range'_1.1 hi
      exact declarable_stop (by omega)

theorem load_shortcut_stop {i : Nat} (hi : 1 ≤ i) (hi' : i ≤ maxDepth + 1) :
    shortcut.load (stop i).name = some (stop i) :=
  load_shortcut <| List.mem_cons_of_mem _ <| List.mem_map_of_mem <|
    List.mem_range'_1.2 ⟨hi, by omega⟩

theorem chain_shortcut : Chain shortcut.load stop where
  loads := fun _ hi hi' => load_shortcut_stop hi (Nat.le_succ_of_le hi')
  distinct := fun _ _ _ _ _ _ h => Nat.repr_inj.1 h
  next := detour_longWay.next

theorem visits_shortcut : visits shortcut.load shortcutStart =
    chainVisits stop 1 ++ [.expanded (stop (maxDepth + 1)) 1] := by
  have hroot : ∀ j, 1 ≤ j → j ≤ maxDepth + 1 → (stop j).name ≠ shortcutStart.name := by
    intro j hj _ hn
    have := Nat.repr_inj.1 (hn : Nat.repr j = Nat.repr 0)
    omega
  refine chain_shortcut.visits_eq rfl hroot fun seen hseen => ?_
  have hunseen : (stop (maxDepth + 1)).name ∉ seen := by
    rw [hseen]
    rintro (hn | ⟨j, -, hj, hn⟩)
    · exact hroot _ (by decide) (Nat.le_refl _) hn
    · have := Nat.repr_inj.1 (hn : Nat.repr (maxDepth + 1) = Nat.repr j)
      omega
  exact ⟨_, .single (.expanded hunseen (by decide) (load_shortcut_stop (by decide) (Nat.le_refl _)))⟩

theorem shortcut_repeats_nothing (r x : String) :
    .circularDependency r x ∉ (resolve shortcut shortcutStart).warnings := by
  rw [mem_warnings_iff (u := .repeated r x) rfl, visits_shortcut]
  simp [chainVisits]

/-- Nothing is reported as circular, and `51` is expanded and named twice: the first time it was too
deep. -/
theorem shortcut_names_module_twice :
    shortcut.load "0" = some shortcutStart ∧
    (∀ r x, .circularDependency r x ∉ (resolve shortcut shortcutStart).warnings) ∧
    ∃ m k, .expanded m k ∈ visits shortcut.load shortcutStart ∧
      2 ≤ (references shortcut.load shortcutStart).count m.name := by
  have hlast : .expanded (stop (maxDepth + 1)) 1 ∈ visits shortcut.load shortcutStart := by
    simp [visits_shortcut]
  have hdeep : .tooDeep (stop (maxDepth + 1)).name (maxDepth + 1) ∈
      visits shortcut.load shortcutStart := by
    simp [visits_shortcut, chainVisits]
  refine ⟨load_shortcut List.mem_cons_self, shortcut_repeats_nothing, _, _, hlast, ?_⟩
  have hcount : (references shortcut.load shortcutStart).count (stop (maxDepth + 1)).name =
      (visits shortcut.load shortcutStart).count
        (.tooDeep (stop (maxDepth + 1)).name (maxDepth + 1)) + 1 :=
    count_references Definitions.name_of_load
      (fun r hr => shortcut_repeats_nothing r _ ((mem_warnings_iff rfl).2 hr)) hlast
  have hpos := List.one_le_count_iff.2 hdeep
  omega

def ui : Module := { name := "ui", paths := ["src/ui"], dependsOn := ["lib", "app"] }

theorem monorepo_reports_circle :
    IsCircle monorepo.load app [app, ui] ∧
    (∃ l ∈ [(app, ui), (ui, app)],
      .circularDependency l.1.name l.2.name ∈ (resolve monorepo app).warnings) ∧
    (∀ r x, .circularDependency r x ∉ (resolve shortcut shortcutStart).warnings) ∧
    (references shortcut.load shortcutStart).count "51" =
      (resolve shortcut shortcutStart).warnings.count (.depthExceeded "51" (maxDepth + 1)) + 1 := by
  have hcircle : IsCircle monorepo.load app [app, ui] := by
    refine ⟨List.cons_ne_nil _ _, ?_, by decide⟩
    have happ : (app, 0) ∈ expansions monorepo.load app := by decide +kernel
    have hui : (ui, 1) ∈ expansions monorepo.load app := by decide +kernel
    intro m hm
    simp only [List.mem_cons, List.not_mem_nil, or_false] at hm
    rcases hm with rfl | rfl
    · exact ⟨0, happ⟩
    · exact ⟨1, hui⟩
  have hlast : .expanded (stop (maxDepth + 1)) 1 ∈ visits shortcut.load shortcutStart := by
    simp [visits_shortcut]
  obtain ⟨hreported, -⟩ := circle_is_reported monorepo app
  obtain ⟨-, hsingle⟩ := circle_is_reported shortcut shortcutStart
  have hcount := (hsingle shortcut_repeats_nothing).2 _ _ hlast
  have hname : (stop (maxDepth + 1)).name = "51" := by decide
  rw [hname] at hcount
  exact ⟨hcircle, hreported _ hcircle, shortcut_repeats_nothing, hcount⟩

end ModuleGraph
