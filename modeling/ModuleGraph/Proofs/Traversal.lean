import ModuleGraph.Proofs.Route
import ModuleGraph.Resolution
import Mathlib.Data.List.Nodup

/-!
# The traversal, one entry at a time

The visits of a resolution are those of a run that takes the first pending dependency entry, decides
what becomes of it, and puts the entries of a newly expanded module in front of the others. What a
step keeps, a run keeps: seen names stay seen, every pending entry is settled in the end, and a
pending entry lies on a route of distinct expanded modules as long as its depth tells.
-/

namespace ModuleGraph.Resolution

structure Entry where
  referrer : String
  name : String
  depth : Nat

structure State where
  pending : List Entry
  seen : List String

def entries (m : Module) (depth : Nat) : List Entry := m.dependsOn.map (⟨m.name, ·, depth⟩)

/-- What becomes of the first pending entry. A name is looked for among the seen ones first, then
the depth counts, then the name is seen whether or not it loads. -/
inductive Step (load : String → Option Module) : State → Visit → State → Prop where
  | repeated {e : Entry} {rest : List Entry} {seen : List String} : e.name ∈ seen →
      Step load ⟨e :: rest, seen⟩ (.repeated e.referrer e.name) ⟨rest, seen⟩
  | tooDeep {e : Entry} {rest : List Entry} {seen : List String} :
      e.name ∉ seen → maxDepth < e.depth →
      Step load ⟨e :: rest, seen⟩ (.tooDeep e.name e.depth) ⟨rest, seen⟩
  | missing {e : Entry} {rest : List Entry} {seen : List String} :
      e.name ∉ seen → e.depth ≤ maxDepth → load e.name = none →
      Step load ⟨e :: rest, seen⟩ (.missing e.referrer e.name) ⟨rest, e.name :: seen⟩
  | expanded {e : Entry} {rest : List Entry} {seen : List String} {m : Module} :
      e.name ∉ seen → e.depth ≤ maxDepth → load e.name = some m →
      Step load ⟨e :: rest, seen⟩ (.expanded m e.depth)
        ⟨entries m (e.depth + 1) ++ rest, e.name :: seen⟩

inductive Run (load : String → Option Module) : State → List Visit → State → Prop where
  | nil (s : State) : Run load s [] s
  | cons {s s₁ s' : State} {v : Visit} {vs : List Visit} :
      Step load s v s₁ → Run load s₁ vs s' → Run load s (v :: vs) s'

variable {load : String → Option Module} {s s' : State} {v : Visit} {vs ws : List Visit}

namespace Run

theorem single (h : Step load s v s') : Run load s [v] s' := .cons h (.nil s')

theorem trans {s₁ : State} (h : Run load s vs s₁) (h' : Run load s₁ ws s') :
    Run load s (vs ++ ws) s' := by
  induction h with
  | nil => exact h'
  | cons hs _ ih => exact .cons hs (ih h')

theorem cut (h : Run load s vs s') (hv : v ∈ vs) :
    ∃ before after s₁ s₂, vs = before ++ v :: after ∧
      Run load s before s₁ ∧ Step load s₁ v s₂ ∧ Run load s₂ after s' := by
  induction h with
  | nil => exact absurd hv List.not_mem_nil
  | @cons s s₁ s' w vs hs hr ih =>
    rcases List.mem_cons.1 hv with rfl | hv
    · exact ⟨[], vs, s, s₁, rfl, .nil s, hs, hr⟩
    · obtain ⟨before, after, s₂, s₃, rfl, hb, hv, ha⟩ := ih hv
      exact ⟨w :: before, after, s₂, s₃, rfl, .cons hs hb, hv, ha⟩

end Run

/-! ### The traversal is a run -/

theorem run_visitAll {visit : List String → String → List Visit × List String}
    {referrer : String} {depth : Nat}
    (h : ∀ rest seen name, Run load ⟨⟨referrer, name, depth⟩ :: rest, seen⟩ (visit seen name).1
      ⟨rest, (visit seen name).2⟩)
    (names : List String) (rest : List Entry) (seen : List String) :
    Run load ⟨names.map (⟨referrer, ·, depth⟩) ++ rest, seen⟩ (visitAll visit seen names).1
      ⟨rest, (visitAll visit seen names).2⟩ := by
  induction names generalizing seen with
  | nil => exact .nil _
  | cons name names ih => exact (h _ seen name).trans (ih _)

theorem visit_of_mem_seen {room : Nat} {referrer name : String} {seen : List String}
    (h : name ∈ seen) : visit load room referrer seen name = ([.repeated referrer name], seen) := by
  cases room <;> simp [visit, h]

theorem run_visit (room : Nat) (hroom : room ≤ maxDepth) (referrer : String) (rest : List Entry)
    (seen : List String) (name : String) :
    Run load ⟨⟨referrer, name, maxDepth + 1 - room⟩ :: rest, seen⟩
      (visit load room referrer seen name).1 ⟨rest, (visit load room referrer seen name).2⟩ := by
  -- On the levels left: those below an entry are one fewer, whatever has been seen by then.
  induction room generalizing referrer rest seen name with
  | zero =>
    by_cases hs : name ∈ seen
    · rw [visit_of_mem_seen hs]
      exact .single (.repeated hs)
    · simpa [visit, hs] using
        Run.single (.tooDeep (e := ⟨referrer, name, maxDepth + 1⟩) hs (Nat.lt_succ_self _))
  | succ room ih =>
    have hdepth : maxDepth + 1 - (room + 1) = maxDepth - room := by omega
    rw [hdepth]
    by_cases hs : name ∈ seen
    · rw [visit_of_mem_seen hs]
      exact .single (.repeated hs)
    cases hl : load name with
    | none =>
      simpa [visit, hs, hl] using Run.single
        (.missing (e := ⟨referrer, name, maxDepth - room⟩) hs (Nat.sub_le _ _) hl)
    | some m =>
      have below := run_visitAll (fun rest seen name => ih (by omega) m.name rest seen name)
        m.dependsOn rest (name :: seen)
      have hnext : maxDepth + 1 - room = maxDepth - room + 1 := by omega
      rw [hnext] at below
      simpa [visit, hs, hl] using Run.cons
        (.expanded (e := ⟨referrer, name, maxDepth - room⟩) hs (Nat.sub_le _ _) hl) below

def State.initial (target : Module) : State := ⟨entries target 1, [target.name]⟩

theorem run_visits (load : String → Option Module) (target : Module) :
    ∃ seen, Run load (.initial target) (visits load target) ⟨[], seen⟩ := by
  have h := run_visitAll (@run_visit load maxDepth (Nat.le_refl _) target.name) target.dependsOn []
    [target.name]
  rw [List.append_nil, Nat.add_sub_cancel_left] at h
  exact ⟨_, h⟩

/-! ### Runs are determined -/

theorem Step.unique {w : Visit} {s₁ s₂ : State} (h : Step load s v s₁)
    (h' : Step load s w s₂) : v = w ∧ s₁ = s₂ := by
  cases h <;> cases h' <;> grind

theorem Run.unique {ws : List Visit} {s₁ s₂ : State} (h : Run load s vs s₁)
    (hp : s₁.pending = []) (h' : Run load s ws s₂) (hp' : s₂.pending = []) : vs = ws := by
  induction h generalizing ws with
  | nil s =>
    cases h' with
    | nil => rfl
    | cons hs _ => cases hs <;> cases hp
  | cons hs _ ih =>
    cases h' with
    | nil => cases hs <;> cases hp'
    | cons hs' hr' =>
      obtain ⟨rfl, rfl⟩ := hs.unique hs'
      rw [ih hp hr']

/-! ### Seen names -/

namespace Step

variable {s₁ : State} {e : Entry} {x : String}

theorem seen_subset (h : Step load s v s₁) : s.seen ⊆ s₁.seen := by
  cases h with
  | repeated | tooDeep => exact List.Subset.refl _
  | missing | expanded => exact List.subset_cons_self _ _

theorem settles (h : Step load s v s₁) (he : e ∈ s.pending) :
    e ∈ s₁.pending ∨ e.name ∈ s₁.seen ∨ maxDepth < e.depth ∧ v = .tooDeep e.name e.depth := by
  cases h with
  | repeated hm =>
    rcases List.mem_cons.1 he with rfl | he
    · exact .inr (.inl hm)
    · exact .inl he
  | tooDeep _ hd =>
    rcases List.mem_cons.1 he with rfl | he
    · exact .inr (.inr ⟨hd, rfl⟩)
    · exact .inl he
  | missing =>
    rcases List.mem_cons.1 he with rfl | he
    · exact .inr (.inl List.mem_cons_self)
    · exact .inl he
  | expanded =>
    rcases List.mem_cons.1 he with rfl | he
    · exact .inr (.inl List.mem_cons_self)
    · exact .inl (List.mem_append_right _ he)

theorem seen_origin (h : Step load s v s₁) (hx : x ∈ s₁.seen) :
    x ∈ s.seen ∨ load x = none ∨ ∃ m k, load x = some m ∧ v = .expanded m k := by
  cases h with
  | repeated | tooDeep => exact .inl hx
  | missing _ _ hl =>
    rcases List.mem_cons.1 hx with rfl | hx
    · exact .inr (.inl hl)
    · exact .inl hx
  | @expanded e _ _ m _ _ hl =>
    rcases List.mem_cons.1 hx with rfl | hx
    · exact .inr (.inr ⟨m, e.depth, hl, rfl⟩)
    · exact .inl hx

end Step

namespace Run

variable {e : Entry} {x : String}

theorem seen_subset (h : Run load s vs s') : s.seen ⊆ s'.seen := by
  induction h with
  | nil => exact List.Subset.refl _
  | cons hs _ ih => exact List.Subset.trans hs.seen_subset ih

/-- Once nothing is pending, the name of every entry is seen, unless it lay below the last level. -/
theorem settles (h : Run load s vs s') (hp : s'.pending = []) (he : e ∈ s.pending) :
    e.name ∈ s'.seen ∨ maxDepth < e.depth ∧ .tooDeep e.name e.depth ∈ vs := by
  induction h with
  | nil =>
    rw [hp] at he
    exact absurd he List.not_mem_nil
  | cons hs hr ih =>
    rcases hs.settles he with he | hm | ⟨hd, rfl⟩
    · rcases ih hp he with hm | ⟨hd, hv⟩
      · exact .inl hm
      · exact .inr ⟨hd, List.mem_cons_of_mem _ hv⟩
    · exact .inl (hr.seen_subset hm)
    · exact .inr ⟨hd, List.mem_cons_self⟩

/-- A name is seen for having been so from the start, for being missing, or for its expansion. -/
theorem seen_origin (h : Run load s vs s') (hx : x ∈ s'.seen) :
    x ∈ s.seen ∨ load x = none ∨ ∃ m k, load x = some m ∧ .expanded m k ∈ vs := by
  induction h with
  | nil => exact .inl hx
  | cons hs _ ih =>
    rcases ih hx with hx | hl | ⟨m, k, hl, hv⟩
    · rcases hs.seen_origin hx with hx | hl | ⟨m, k, hl, rfl⟩
      · exact .inl hx
      · exact .inr (.inl hl)
      · exact .inr (.inr ⟨m, k, hl, List.mem_cons_self⟩)
    · exact .inr (.inl hl)
    · exact .inr (.inr ⟨m, k, hl, List.mem_cons_of_mem _ hv⟩)

end Run

/-! ### Dropped entries -/

/-- No pending entry lies deeper than right below the last level. -/
def State.Bounded (s : State) : Prop := ∀ e ∈ s.pending, e.depth ≤ maxDepth + 1

theorem bounded_initial (target : Module) : (State.initial target).Bounded := by
  intro e he
  obtain ⟨name, -, rfl⟩ := List.mem_map.1 he
  show 1 ≤ maxDepth + 1
  omega

theorem Step.bounded {s₁ : State} (h : Step load s v s₁) (hb : s.Bounded) : s₁.Bounded := by
  intro e he
  cases h with
  | repeated | tooDeep | missing => exact hb e (List.mem_cons_of_mem _ he)
  | expanded _ hd _ =>
    rcases List.mem_append.1 he with he | he
    · obtain ⟨name, -, rfl⟩ := List.mem_map.1 he
      exact Nat.succ_le_succ hd
    · exact hb e (List.mem_cons_of_mem _ he)

theorem Run.bounded (h : Run load s vs s') (hb : s.Bounded) : s'.Bounded := by
  induction h with
  | nil => exact hb
  | cons hs _ ih => exact ih (hs.bounded hb)

/-- An entry that is too deep lies right below the last level. -/
theorem depth_of_tooDeep {target : Module} {x : String} {k : Nat}
    (h : .tooDeep x k ∈ visits load target) : k = maxDepth + 1 := by
  obtain ⟨seen, hrun⟩ := run_visits load target
  obtain ⟨before, after, s₁, s₂, -, hb, hs, -⟩ := hrun.cut h
  have hbounded := hb.bounded (bounded_initial target)
  cases hs with
  | tooDeep _ hd => exact Nat.le_antisymm (hbounded _ List.mem_cons_self) hd

theorem load_of_missing {target : Module} {r x : String}
    (h : .missing r x ∈ visits load target) : load x = none := by
  obtain ⟨seen, hrun⟩ := run_visits load target
  obtain ⟨before, after, s₁, s₂, -, -, hs, -⟩ := hrun.cut h
  cases hs with
  | missing _ _ hl => exact hl

/-! ### Expansions -/

def Visit.expansion? : Visit → Option (Module × Nat)
  | expanded m k => some (m, k)
  | _ => none

/-- The modules that contribute to a resolution, each with the level it is met at: the target at
level 0, then the dependencies that are expanded. -/
def expansions (load : String → Option Module) (target : Module) : List (Module × Nat) :=
  (target, 0) :: (visits load target).filterMap Visit.expansion?

theorem expansion?_eq_some_iff {m : Module} {k : Nat} :
    v.expansion? = some (m, k) ↔ v = .expanded m k := by
  cases v <;> simp [Visit.expansion?]

/-- What only expansions contribute can be read off the expansions. -/
theorem flatMap_eq_of_expansion? {α : Type} {f : Visit → List α} {g : Module × Nat → List α}
    (h : ∀ v : Visit, f v = (v.expansion?.map g).getD []) (vs : List Visit) :
    vs.flatMap f = (vs.filterMap Visit.expansion?).flatMap g := by
  induction vs with
  | nil => rfl
  | cons v vs ih =>
    rw [List.flatMap_cons, ih, h, List.filterMap_cons]
    cases v.expansion? with
    | none => rfl
    | some x => rfl

theorem mem_expansions {target m : Module} {k : Nat} :
    (m, k) ∈ expansions load target ↔
      m = target ∧ k = 0 ∨ .expanded m k ∈ visits load target := by
  simp [expansions, expansion?_eq_some_iff]

section Named

variable (named : ∀ {x : String} {m : Module}, load x = some m → m.name = x)
include named

theorem Run.expanded_loads {m : Module} {k : Nat} (h : Run load s vs s')
    (hv : .expanded m k ∈ vs) : load m.name = some m ∧ m.name ∉ s.seen := by
  obtain ⟨_, _, s₁, _, -, hb, hs, -⟩ := h.cut hv
  cases hs with
  | expanded hn _ hl =>
    rw [named hl]
    exact ⟨hl, fun hm => hn (hb.seen_subset hm)⟩

theorem Run.not_mem_seen_of_expanded (h : Run load s vs s') {x : String}
    (hx : x ∈ (vs.filterMap Visit.expansion?).map (·.1.name)) : x ∉ s.seen := by
  obtain ⟨⟨m, k⟩, hm, rfl⟩ := List.mem_map.1 hx
  obtain ⟨v, hv, he⟩ := List.mem_filterMap.1 hm
  obtain rfl := expansion?_eq_some_iff.1 he
  exact (h.expanded_loads named hv).2

theorem Run.nodup_expanded (h : Run load s vs s') :
    ((vs.filterMap Visit.expansion?).map (·.1.name)).Nodup := by
  induction h with
  | nil => exact List.nodup_nil
  | cons hs hr ih =>
    cases hs with
    | repeated | tooDeep | missing => exact ih
    | expanded _ _ hl =>
      refine List.nodup_cons.2 ⟨fun hm => ?_, ih⟩
      apply hr.not_mem_seen_of_expanded named hm
      exact List.mem_cons.2 (.inl (named hl))

theorem nodup_expansions (target : Module) :
    ((expansions load target).map (·.1.name)).Nodup := by
  obtain ⟨seen, h⟩ := run_visits load target
  refine List.nodup_cons.2 ⟨fun hm => ?_, h.nodup_expanded named⟩
  exact h.not_mem_seen_of_expanded named hm (List.mem_singleton_self _)

/-- A name is met at one level only. -/
theorem expansions_unique {target m m' : Module} {k k' : Nat}
    (hm : (m, k) ∈ expansions load target) (hm' : (m', k') ∈ expansions load target)
    (hn : m.name = m'.name) : m = m' ∧ k = k' := by
  have h := List.inj_on_of_nodup_map (nodup_expansions named target) hm hm' hn
  exact Prod.mk.injEq .. ▸ h

end Named

/-! ### Warnings about parents -/

theorem eq_of_mem_parentWarnings {m : Module} {w : Warning} (h : w ∈ parentWarnings load m) :
    ∃ parent path, w = .pathOutsideParent m.name parent path := by
  unfold parentWarnings at h
  split at h
  · cases h
  · obtain ⟨path, -, rfl⟩ := List.mem_map.1 h
    exact ⟨_, path, rfl⟩

end ModuleGraph.Resolution
