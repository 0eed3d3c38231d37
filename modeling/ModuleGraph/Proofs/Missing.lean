import ModuleGraph.Proofs.Accounting
import ModuleGraph.Proofs.Lookup

/-!
# Missing dependencies

A name is seen from its first visit on, whether or not it is a module. So a missing name is told to
be missing once, by the first entry that names it, and each later entry is taken for a repetition.
-/

namespace ModuleGraph

namespace Resolution

variable {load : String → Option Module} {s s' : State} {v : Visit} {vs : List Visit}
  {target m : Module} {r x : String} {k : Nat}

/-! ### The first entry for a missing name -/

theorem Run.notMem_seen_of_missing (h : Run load s vs s') (hv : .missing r x ∈ vs) :
    x ∉ s.seen := by
  obtain ⟨before, after, s₁, s₂, -, hb, hs, -⟩ := h.cut hv
  cases hs with
  | missing hn => exact fun hx => hn (hb.seen_subset hx)

theorem Run.mem_seen_of_repeated (h : Run load s vs s') (hv : .repeated r x ∈ vs) :
    x ∈ s'.seen := by
  obtain ⟨before, after, s₁, s₂, -, -, hs, ha⟩ := h.cut hv
  cases hs with
  | repeated hm => exact ha.seen_subset hm

theorem Run.mem_seen_of_missing (h : Run load s vs s') (hv : .missing r x ∈ vs) :
    x ∈ s'.seen := by
  obtain ⟨before, after, s₁, s₂, -, -, hs, ha⟩ := h.cut hv
  cases hs with
  | missing => exact ha.seen_subset List.mem_cons_self

/-- Until a missing name is found missing it is not seen, and no entry repeats it. -/
theorem Step.of_unseen {s₁ : State} (h : Step load s v s₁) (hl : load x = none)
    (hx : x ∉ s.seen) :
    (∃ r, v = .missing r x ∧ x ∈ s₁.seen) ∨
      x ∉ s₁.seen ∧ ∀ r, v ≠ .repeated r x ∧ v ≠ .missing r x := by
  cases h with
  | repeated hm =>
    refine .inr ⟨hx, fun r => ⟨fun he => ?_, by simp⟩⟩
    exact hx ((Visit.repeated.inj he).2 ▸ hm)
  | tooDeep => exact .inr ⟨hx, by simp⟩
  | @missing e rest seen _ _ _ =>
    by_cases he : e.name = x
    · subst he
      exact .inl ⟨_, rfl, List.mem_cons_self⟩
    · refine .inr ⟨fun hm => ?_, by simp [he]⟩
      rcases List.mem_cons.1 hm with h | hm
      · exact he h.symm
      · exact hx hm
  | expanded _ _ hload =>
    refine .inr ⟨fun hm => ?_, by simp⟩
    rcases List.mem_cons.1 hm with rfl | hm
    · rw [hl] at hload
      cases hload
    · exact hx hm

theorem Run.found_missing (h : Run load s vs s') (hl : load x = none) (hx : x ∉ s.seen)
    (hx' : x ∈ s'.seen) :
    ∃ before r after, vs = before ++ .missing r x :: after ∧
      (∀ r', .repeated r' x ∉ before ∧ .missing r' x ∉ before) ∧ ∀ r', .missing r' x ∉ after := by
  induction h with
  | nil => exact absurd hx' hx
  | @cons s s₁ s' v vs hs hr ih =>
    rcases hs.of_unseen hl hx with ⟨r, rfl, hm⟩ | ⟨hx₁, hv⟩
    · exact ⟨[], r, vs, rfl, by simp, fun r' hr' => hr.notMem_seen_of_missing hr' hm⟩
    · obtain ⟨before, r, after, rfl, hbefore, hafter⟩ := ih hx₁ hx'
      refine ⟨v :: before, r, after, rfl, fun r' => ?_, hafter⟩
      obtain ⟨hrepeated, hmissing⟩ := hbefore r'
      obtain ⟨hvr, hvm⟩ := hv r'
      exact ⟨List.not_mem_cons_of_ne_of_not_mem hvr.symm hrepeated,
        List.not_mem_cons_of_ne_of_not_mem hvm.symm hmissing⟩

theorem found_missing (hl : load x = none) (ht : x ≠ target.name)
    (h : ∃ r, .repeated r x ∈ visits load target ∨ .missing r x ∈ visits load target) :
    ∃ before r after, visits load target = before ++ .missing r x :: after ∧
      (∀ r', .repeated r' x ∉ before ∧ .missing r' x ∉ before) ∧ ∀ r', .missing r' x ∉ after := by
  obtain ⟨seen, hrun⟩ := run_visits load target
  refine hrun.found_missing hl (fun hm => ht (List.mem_singleton.1 hm)) ?_
  obtain ⟨r, hr | hm⟩ := h
  · exact hrun.mem_seen_of_repeated hr
  · exact hrun.mem_seen_of_missing hm

/-! ### Entries of a module for a missing name -/

theorem countP_eq_of_forall₂ {α β : Type} {R : α → β → Prop} {p : α → Bool} {q : β → Bool}
    {as : List α} {bs : List β} (h : List.Forall₂ R as bs)
    (hpq : ∀ a ∈ as, ∀ b ∈ bs, R a b → p a = q b) : as.countP p = bs.countP q := by
  induction h with
  | nil => rfl
  | cons hab _ ih =>
    rw [List.countP_cons, List.countP_cons, hpq _ List.mem_cons_self _ List.mem_cons_self hab,
      ih fun a ha b hb => hpq a (List.mem_cons_of_mem _ ha) b (List.mem_cons_of_mem _ hb)]

theorem countP_either {u w : Visit} (h : u ≠ w) (vs : List Visit) :
    vs.countP (fun v => v = u ∨ v = w) = vs.count u + vs.count w := by
  induction vs with
  | nil => rfl
  | cons v vs ih =>
    rw [List.countP_cons, List.count_cons, List.count_cons, ih]
    by_cases hu : v = u <;> by_cases hw : v = w <;> simp_all <;> omega

/-- The entries of a module are told from those of others by the referrer. -/
theorem countP_entriesMet (named : ∀ {x : String} {m : Module}, load x = some m → m.name = x)
    (hm : (m, k) ∈ expansions load target) (x : String) :
    (entriesMet load target).countP (fun e => e.referrer = m.name ∧ e.name = x) =
      m.dependsOn.count x := by
  obtain ⟨as, bs, hsplit⟩ := List.append_of_mem hm
  have hnodup := nodup_expansions named target
  rw [hsplit, List.map_append, List.map_cons, List.nodup_middle, List.nodup_cons,
    ← List.map_append] at hnodup
  have hothers : ∀ ys ⊆ as ++ bs, (ys.flatMap fun y => entries y.1 (y.2 + 1)).countP
      (fun e => e.referrer = m.name ∧ e.name = x) = 0 := by
    intro ys hys
    rw [List.countP_eq_zero]
    intro e he
    obtain ⟨y, hy, he⟩ := List.mem_flatMap.1 he
    obtain ⟨_, -, rfl⟩ := List.mem_map.1 he
    have hne : y.1.name ≠ m.name := fun hn =>
      hnodup.1 (hn ▸ List.mem_map_of_mem (hys hy))
    simp [hne]
  rw [entriesMet, hsplit, List.flatMap_append, List.flatMap_cons, List.countP_append,
    List.countP_append, hothers as (List.subset_append_left _ _),
    hothers bs (List.subset_append_right _ _)]
  simp [entries, List.countP_map, List.count, Function.comp_def, beq_eq_decide]

/-- Above the last level, every entry for a missing name is found to be missing or taken for a
repetition. -/
theorem count_missing_add_count_repeated
    (named : ∀ {x : String} {m : Module}, load x = some m → m.name = x) (hl : load x = none)
    (hm : (m, k) ∈ expansions load target) (hk : k < maxDepth) :
    (visits load target).count (.missing m.name x) +
      (visits load target).count (.repeated m.name x) = m.dependsOn.count x := by
  obtain ⟨es, hes, hperm⟩ := visits_follow_entries load target
  have hne : Visit.missing m.name x ≠ .repeated m.name x := by simp
  rw [← countP_entriesMet named hm, ← hperm.countP_eq, ← countP_either hne]
  refine (countP_eq_of_forall₂ hes.settles fun e he v hv hsettles => ?_).symm
  rw [decide_eq_decide]
  have he : e ∈ entriesMet load target := hperm.subset he
  rcases settles_iff.1 hsettles with ⟨m', hload, rfl⟩ | rfl | rfl | rfl
  · have hname : e.name ≠ x := fun h => by simp [h ▸ hload] at hl
    simp [hname]
  · simp
  · have hreferrer : e.referrer ≠ m.name := by
      intro hr
      obtain ⟨⟨m', k'⟩, hm', hmem⟩ := List.mem_flatMap.1 he
      obtain ⟨_, -, rfl⟩ := List.mem_map.1 hmem
      obtain ⟨-, rfl⟩ := expansions_unique named hm' hm hr
      have hdepth : k' + 1 = maxDepth + 1 := depth_of_tooDeep hv
      omega
    simp [hreferrer]
  · simp

end Resolution

open Resolution

/-- Every entry for a missing name above the last level has its own warning. One, the first that
says anything about the name, tells that it is missing, and the others repeat it. -/
theorem missing_is_told_once (d : Definitions) (t : Module) (x : String) (hl : d.load x = none)
    (hx : x ≠ t.name) :
    (∀ m k, (m, k) ∈ expansions d.load t → k < maxDepth →
      (resolve d t).warnings.count (.missingDependency m.name x) +
        (resolve d t).warnings.count (.circularDependency m.name x) = m.dependsOn.count x) ∧
    ((∃ m k, (m, k) ∈ expansions d.load t ∧ k < maxDepth ∧ x ∈ m.dependsOn) ∨
        (∃ r, .circularDependency r x ∈ (resolve d t).warnings) →
      ∃ before r after, (resolve d t).warnings = before ++ .missingDependency r x :: after ∧
        (∀ r', .circularDependency r' x ∉ before ∧ .missingDependency r' x ∉ before) ∧
        ∀ r', .missingDependency r' x ∉ after) := by
  have hcount : ∀ m k, (m, k) ∈ expansions d.load t → k < maxDepth →
      (visits d.load t).count (.missing m.name x) +
        (visits d.load t).count (.repeated m.name x) = m.dependsOn.count x :=
    fun m k => count_missing_add_count_repeated Definitions.name_of_load hl
  refine ⟨fun m k hm hk => ?_, fun h => ?_⟩
  · rw [← hcount m k hm hk, count_warnings (u := .missing m.name x) rfl,
      count_warnings (u := .repeated m.name x) rfl]
  · have hvisited : ∃ r, .repeated r x ∈ visits d.load t ∨ .missing r x ∈ visits d.load t := by
      rcases h with ⟨m, k, hm, hk, hd⟩ | ⟨r, hr⟩
      · refine ⟨m.name, ?_⟩
        have hpos := List.count_pos_iff.2 hd
        rw [← hcount m k hm hk] at hpos
        rcases Nat.add_pos_iff_pos_or_pos.1 hpos with h | h
        · exact .inr (List.count_pos_iff.1 h)
        · exact .inl (List.count_pos_iff.1 h)
      · exact ⟨r, .inl ((mem_warnings_iff rfl).1 hr)⟩
    obtain ⟨before, r, after, hvisits, hbefore, hafter⟩ := found_missing hl hx hvisited
    refine ⟨parentWarnings d.load t ++ before.flatMap (Visit.warnings d.load), r,
      after.flatMap (Visit.warnings d.load), ?_, fun r' => ⟨?_, ?_⟩, fun r' => ?_⟩
    · simp [resolve, hvisits, Visit.warnings]
    · rw [List.mem_append, not_or, mem_flatMap_warnings (u := .repeated r' x) rfl]
      exact ⟨notMem_parentWarnings (u := .repeated r' x) rfl, (hbefore r').1⟩
    · rw [List.mem_append, not_or, mem_flatMap_warnings (u := .missing r' x) rfl]
      exact ⟨notMem_parentWarnings (u := .missing r' x) rfl, (hbefore r').2⟩
    · rw [mem_flatMap_warnings (u := .missing r' x) rfl]
      exact hafter r'

/-! ### A missing name that two modules depend on -/

def caller : Module := { name := "app", paths := ["src/app"], dependsOn := ["ghost", "core"] }

def callee : Module := { name := "core", paths := ["lib/core"], dependsOn := ["ghost"] }

def haunted : Definitions := .ofModules [caller, callee]

theorem haunted_tells_caller_first :
    haunted.load "ghost" = none ∧ "ghost" ≠ caller.name ∧
    (resolve haunted caller).warnings.count (.missingDependency "core" "ghost") +
      (resolve haunted caller).warnings.count (.circularDependency "core" "ghost") = 1 ∧
    ∃ before r after,
      (resolve haunted caller).warnings = before ++ .missingDependency r "ghost" :: after ∧
        (∀ r', .circularDependency r' "ghost" ∉ before ∧ .missingDependency r' "ghost" ∉ before) ∧
        ∀ r', .missingDependency r' "ghost" ∉ after := by
  have hghost : haunted.load "ghost" = none := by decide +kernel
  have hne : "ghost" ≠ caller.name := by decide
  have hcallee : (callee, 1) ∈ expansions haunted.load caller := by decide +kernel
  obtain ⟨hcount, hfirst⟩ := missing_is_told_once haunted caller "ghost" hghost hne
  exact ⟨hghost, hne, hcount callee 1 hcallee (by decide),
    hfirst (.inl ⟨callee, 1, hcallee, by decide, by decide⟩)⟩

/-- The second module is told of a repetition, not of a missing name. -/
theorem haunted_repeats_missing_name :
    haunted.load "app" = some caller ∧ (callee, 1) ∈ expansions haunted.load caller ∧
    "ghost" ∈ callee.dependsOn ∧ haunted.load "ghost" = none ∧ "ghost" ≠ caller.name ∧
    .missingDependency "core" "ghost" ∉ (resolve haunted caller).warnings ∧
    .circularDependency "core" "ghost" ∈ (resolve haunted caller).warnings := by
  decide +kernel

end ModuleGraph
