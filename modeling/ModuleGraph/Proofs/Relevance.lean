import ModuleGraph.Proofs.Listing
import ModuleGraph.Proofs.Planning

/-!
# What a resolution depends on

A resolution looks at the names that it refers to and at the names above these, and of each at the
usable paths and the dependencies that its sections give together. Two definition texts that agree
there give the same resolution, and two that also agree on who owns which path and what is
infrastructure hide the same paths.
-/

namespace ModuleGraph

open Resolution
open ModuleGraph.Path

/-- Neither is a module, or both are the same one but for its flags. -/
def Reflagged (a b : Option Module) : Prop :=
  a = none ∧ b = none ∨ ∃ m f, a = some m ∧ b = some { m with flags := f }

/-- Both catalogs have the same modules but for their flags at a name and at all names above it. -/
def Agree (load load' : String → Option Module) (x : String) : Prop :=
  ∀ y, isWithin x y = true → Reflagged (load y) (load' y)

/-! ### Two traversals -/

section Traversal

variable {load load' : String → Option Module} {s s' : State} {v : Visit} {vs : List Visit}

theorem parentWarnings_of_agree {m : Module} (f : Flags) (h : Agree load load' m.name) :
    parentWarnings load' { m with flags := f } = parentWarnings load m := by
  unfold parentWarnings Module.parent?
  cases hp : parentName? m.name with
  | none => simp
  | some p =>
    have hparent := h p (isWithin_iff.2 (.inr (isAncestor_of_parentName? hp)))
    rcases hparent with ⟨hl, hl'⟩ | ⟨q, g, hl, hl'⟩
    · simp [hl, hl']
    · simp [hl, hl']

theorem Resolution.Step.pending_origin {e : Entry} (h : Step load s v s')
    (he : e ∈ s'.pending) :
    e ∈ s.pending ∨ ∃ m k, v = .expanded m k ∧ e.name ∈ m.dependsOn := by
  cases h with
  | repeated | tooDeep | missing => exact .inl (List.mem_cons_of_mem _ he)
  | expanded =>
    rcases List.mem_append.1 he with he | he
    · obtain ⟨name, hname, rfl⟩ := mem_entries.1 he
      exact .inr ⟨_, _, rfl, hname⟩
    · exact .inl (List.mem_cons_of_mem _ he)

/-- A catalog that agrees at the first pending name makes the same step, with the same output. -/
theorem Resolution.Step.transfer
    (named : ∀ {x : String} {m : Module}, load x = some m → m.name = x) (h : Step load s v s')
    (ha : ∀ e ∈ s.pending, Agree load load' e.name) :
    ∃ v', Step load' s v' s' ∧ v'.paths = v.paths ∧ v'.warnings load' = v.warnings load := by
  cases h with
  | repeated hm => exact ⟨_, .repeated hm, rfl, rfl⟩
  | tooDeep hm hd => exact ⟨_, .tooDeep hm hd, rfl, rfl⟩
  | missing hm hd hl =>
    rcases ha _ List.mem_cons_self _ (isWithin_self _) with ⟨-, hl'⟩ | ⟨m, f, hl₁, -⟩
    · exact ⟨_, .missing hm hd hl', rfl, rfl⟩
    · rw [hl] at hl₁
      cases hl₁
  | @expanded e rest seen m hm hd hl =>
    have hagree := ha e List.mem_cons_self
    rcases hagree _ (isWithin_self _) with ⟨hl₁, -⟩ | ⟨m₁, f, hl₁, hl'⟩
    · rw [hl] at hl₁
      cases hl₁
    · rw [hl] at hl₁
      cases hl₁
      rw [← named hl] at hagree
      have hstep : Step load' ⟨e :: rest, seen⟩ (.expanded { m with flags := f } e.depth)
          ⟨entries m (e.depth + 1) ++ rest, e.name :: seen⟩ := .expanded hm hd hl'
      exact ⟨_, hstep, rfl, parentWarnings_of_agree f hagree⟩

theorem Resolution.Run.transfer
    (named : ∀ {x : String} {m : Module}, load x = some m → m.name = x) (h : Run load s vs s')
    (ha : ∀ e ∈ s.pending, Agree load load' e.name)
    (hv : ∀ m k, .expanded m k ∈ vs → ∀ x ∈ m.dependsOn, Agree load load' x) :
    ∃ vs', Run load' s vs' s' ∧ vs'.flatMap Visit.paths = vs.flatMap Visit.paths ∧
      vs'.flatMap (Visit.warnings load') = vs.flatMap (Visit.warnings load) := by
  induction h with
  | nil s => exact ⟨[], .nil s, rfl, rfl⟩
  | @cons s s₁ s' v vs hs _ ih =>
    obtain ⟨v', hs', hpaths, hwarnings⟩ := hs.transfer named ha
    have ha₁ : ∀ e ∈ s₁.pending, Agree load load' e.name := by
      intro e he
      rcases hs.pending_origin he with he | ⟨m, k, rfl, hx⟩
      · exact ha e he
      · exact hv m k List.mem_cons_self _ hx
    obtain ⟨vs', hr', hpaths', hwarnings'⟩ :=
      ih ha₁ fun m k hm => hv m k (List.mem_cons_of_mem _ hm)
    refine ⟨v' :: vs', .cons hs' hr', ?_, ?_⟩
    · rw [List.flatMap_cons, List.flatMap_cons, hpaths, hpaths']
    · rw [List.flatMap_cons, List.flatMap_cons, hwarnings, hwarnings']

theorem resolve_of_agree {d₁ d₂ : Definitions} {t : Module} (f : Flags)
    (h : ∀ m k, (m, k) ∈ expansions d₁.load t →
      Agree d₁.load d₂.load m.name ∧ ∀ x ∈ m.dependsOn, Agree d₁.load d₂.load x) :
    resolve d₂ { t with flags := f } = resolve d₁ t := by
  obtain ⟨hname, hdepends⟩ := h t 0 (mem_expansions.2 (.inl ⟨rfl, rfl⟩))
  obtain ⟨seen, hrun⟩ := run_visits d₁.load t
  obtain ⟨seen', hrun'⟩ := run_visits d₂.load { t with flags := f }
  have ha : ∀ e ∈ (State.initial t).pending, Agree d₁.load d₂.load e.name := by
    intro e he
    obtain ⟨name, hname, rfl⟩ := mem_entries.1 he
    exact hdepends name hname
  obtain ⟨vs, hvs, hpaths, hwarnings⟩ := hrun.transfer Definitions.name_of_load ha
    fun m k hv => (h m k (mem_expansions.2 (.inr hv))).2
  -- The visits copied from the first catalog are those of the second: its runs are determined.
  have heq : visits d₂.load { t with flags := f } = vs := hrun'.unique rfl hvs rfl
  unfold resolve
  rw [heq, hpaths, hwarnings, parentWarnings_of_agree f hname]

end Traversal

/-! ### Two definition texts -/

variable {d₁ d₂ : Definitions} {t : Module} {n x : String}

/-- The sections of the name have the same usable paths and the same dependencies. -/
def SameEntries (d₁ d₂ : Definitions) (x : String) : Prop :=
  d₁.ownPaths x = d₂.ownPaths x ∧ d₁.ownDepends x = d₂.ownDepends x

theorem own?_of_sameEntries (h : SameEntries d₁ d₂ x) : Reflagged (d₁.own? x) (d₂.own? x) := by
  unfold Definitions.own?
  rw [h.1, h.2]
  split
  · exact .inl ⟨rfl, rfl⟩
  · exact .inr ⟨_, _, rfl, rfl⟩

theorem inherit_reflagged {a b : Option Module} (m : Module) (f : Flags) (h : Reflagged a b) :
    Definitions.inherit { m with flags := f } b = { Definitions.inherit m a with flags := f } := by
  rcases h with ⟨rfl, rfl⟩ | ⟨p, g, rfl, rfl⟩
  · rfl
  · by_cases hp : p.dependsOn = []
    · simp [Definitions.inherit, hp]
    · simp [Definitions.inherit, hp]

theorem load_of_sameEntries (h : ∀ y, isWithin x y = true → SameEntries d₁ d₂ y) :
    Reflagged (d₁.load x) (d₂.load x) := by
  -- From the parent to the name: what lies above the parent lies above the name.
  induction x using parent_induction with
  | h x ih =>
    have hparent : Reflagged ((parentName? x).bind d₁.load) ((parentName? x).bind d₂.load) := by
      cases hp : parentName? x with
      | none => exact .inl ⟨rfl, rfl⟩
      | some p =>
        have habove := isWithin_iff.2 (.inr (isAncestor_of_parentName? hp))
        exact ih p hp fun y hy => h y (isWithin_trans habove hy)
    rw [Definitions.load_eq, Definitions.load_eq]
    rcases own?_of_sameEntries (h x (isWithin_self x)) with ⟨h₁, h₂⟩ | ⟨m, f, h₁, h₂⟩
    · rw [h₁, h₂]
      exact .inl ⟨rfl, rfl⟩
    · rw [h₁, h₂, Option.map_some, Option.map_some]
      by_cases hd : m.dependsOn = []
      · rw [if_pos hd, if_pos hd, inherit_reflagged m f hparent]
        exact .inr ⟨_, f, rfl, rfl⟩
      · rw [if_neg hd, if_neg hd]
        exact .inr ⟨_, f, rfl, rfl⟩

/-- The names that the resolution of a module expands or refers to, and the names above them. -/
def Relevant (d : Definitions) (t : Module) (x : String) : Prop :=
  ∃ m k y, (m, k) ∈ expansions d.load t ∧ (y = m.name ∨ y ∈ m.dependsOn) ∧ isWithin y x = true

theorem agree_of_relevant (h : ∀ x, Relevant d₁ t x → SameEntries d₁ d₂ x) {m : Module} {k : Nat}
    (hm : (m, k) ∈ expansions d₁.load t) {y : String} (hy : y = m.name ∨ y ∈ m.dependsOn) :
    Agree d₁.load d₂.load y := by
  intro x hx
  refine load_of_sameEntries fun z hz => h z ?_
  exact ⟨m, k, y, hm, hy, isWithin_trans hx hz⟩

/-! ### Plans -/

variable {d : Definitions} {e q : String}

theorem mem_foreignPaths :
    e ∈ foreignPaths d t ↔
      ∃ x, x ≠ t.name ∧ (d.ownFlags x).infrastructure = false ∧ e ∈ d.ownPaths x := by
  simp only [foreignPaths, foreignModules_eq, List.mem_flatMap, List.mem_filter,
    Plan.mem_otherModules]
  constructor
  · rintro ⟨m, ⟨⟨hl, hn⟩, hi⟩, he⟩
    obtain ⟨hpaths, hflags⟩ := Definitions.paths_and_flags_of_load hl
    refine ⟨m.name, hn, ?_, hpaths ▸ he⟩
    simpa [Module.isInfrastructure, hflags] using hi
  · rintro ⟨x, hx, hi, he⟩
    obtain ⟨m, hl, rfl, hpaths, hflags⟩ := Definitions.exists_load_of_mem_ownPaths he
    refine ⟨m, ⟨⟨hl, hx⟩, ?_⟩, hpaths ▸ he⟩
    simpa [Module.isInfrastructure, hflags] using hi

theorem needed_iff_own :
    Needed d t q ↔ q ∈ (resolve d t).paths ∨
      ∃ x, (d.ownFlags x).infrastructure = true ∧ q ∈ d.ownPaths x := by
  unfold Needed
  apply or_congr_right
  constructor
  · rintro ⟨m, hl, hi, hq⟩
    obtain ⟨hpaths, hflags⟩ := Definitions.paths_and_flags_of_load hl
    exact ⟨m.name, hflags ▸ hi, hpaths ▸ hq⟩
  · rintro ⟨x, hi, hq⟩
    obtain ⟨m, hl, rfl, hpaths, hflags⟩ := Definitions.exists_load_of_mem_ownPaths hq
    refine ⟨m, hl, ?_, hpaths ▸ hq⟩
    rw [Module.isInfrastructure, hflags]
    exact hi

theorem mem_hidden_of_same_owners {t' : Module} (ht : d₁.load n = some t)
    (ht' : d₂.load n = some t') (hr : resolve d₂ t' = resolve d₁ t)
    (hpaths : ∀ x, d₁.ownPaths x = d₂.ownPaths x)
    (hmarks : ∀ x ∈ d₁.names, (d₁.ownFlags x).infrastructure = (d₂.ownFlags x).infrastructure) :
    e ∈ (plan d₂ t').hidden ↔ e ∈ (plan d₁ t).hidden := by
  have hname : t'.name = t.name :=
    (Definitions.name_of_load ht').trans (Definitions.name_of_load ht).symm
  have hmark : ∀ x p, p ∈ d₁.ownPaths x →
      (d₂.ownFlags x).infrastructure = (d₁.ownFlags x).infrastructure := by
    intro x p hp
    obtain ⟨m, hm, -⟩ := Definitions.exists_load_of_mem_ownPaths hp
    exact (hmarks x (Definitions.mem_names_iff.2 ⟨m, hm⟩)).symm
  have hforeign : e ∈ foreignPaths d₂ t' ↔ e ∈ foreignPaths d₁ t := by
    simp only [mem_foreignPaths, ← hpaths, hname]
    refine exists_congr fun x => and_congr_right fun _ => and_congr_left fun hp => ?_
    rw [hmark x e hp]
  have hneeded : ∀ q, Needed d₂ t' q ↔ Needed d₁ t q := by
    intro q
    simp only [needed_iff_own, hr, ← hpaths]
    refine or_congr_right (exists_congr fun x => and_congr_left fun hp => ?_)
    rw [hmark x q hp]
  rw [mem_hidden_iff ht', mem_hidden_iff ht, hforeign]
  simp only [hneeded]

/-- Two definition texts may agree on the usable paths and the dependencies of every name that the
resolution of a module expands or refers to, and of the names above these. Then they give the module
the same resolution. If they also give every name the same usable paths, and every module the same
mark of infrastructure, they hide the same paths, with the same warnings. -/
theorem answers_depend_on_relevant (ht : d₁.load n = some t)
    (h : ∀ x, Relevant d₁ t x →
      d₁.ownPaths x = d₂.ownPaths x ∧ d₁.ownDepends x = d₂.ownDepends x) :
    ∃ t', d₂.load n = some t' ∧ resolve d₂ t' = resolve d₁ t ∧
      ((∀ x, d₁.ownPaths x = d₂.ownPaths x) →
        (∀ x ∈ d₁.names,
          (d₁.ownFlags x).infrastructure = (d₂.ownFlags x).infrastructure) →
        (∀ e, e ∈ (plan d₂ t').hidden ↔ e ∈ (plan d₁ t).hidden) ∧
          (plan d₂ t').warnings = (plan d₁ t).warnings) := by
  have hroot : (t, 0) ∈ expansions d₁.load t := mem_expansions.2 (.inl ⟨rfl, rfl⟩)
  have hagree := agree_of_relevant h hroot (.inl rfl)
  rw [Definitions.name_of_load ht] at hagree
  rcases hagree n (isWithin_self n) with ⟨hnone, -⟩ | ⟨t₁, f, ht₁, ht'⟩
  · rw [ht] at hnone
    cases hnone
  · rw [ht] at ht₁
    cases ht₁
    have hr : resolve d₂ { t with flags := f } = resolve d₁ t := by
      refine resolve_of_agree f fun m k hm => ⟨agree_of_relevant h hm (.inl rfl), ?_⟩
      intro x hx
      exact agree_of_relevant h hm (.inr hx)
    refine ⟨{ t with flags := f }, ht', hr, ?_⟩
    intro hpaths hmarks
    refine ⟨fun e => mem_hidden_of_same_owners ht ht' hr hpaths hmarks, ?_⟩
    rw [warnings_plan, warnings_plan, hr]

/-! ### A text rearranged -/

def teamUi : Module :=
  { name := "team/ui", paths := ["team/ui"], dependsOn := ["core"], inheritedDepends := true }

/-- `team/ui` has its dependencies from `team`. -/
def arranged : Definitions := .ofModules
  [{ name := "team", paths := ["team"], dependsOn := ["core"] },
    { name := "team/ui", paths := ["team/ui"] },
    { name := "core", paths := ["lib/core"] },
    { name := "docs", paths := ["docs", "lib"], dependsOn := ["team"] },
    { name := "ci", paths := [".github"], flags := { infrastructure := true } }]

/-- The same in another order, `team` in two sections, with other flags and with other dependencies
of `docs`. -/
def rearranged : Definitions := .ofModules
  [{ name := "docs", paths := ["docs", "lib"], dependsOn := ["ghost", "docs"] },
    { name := "ci", paths := [".github"], flags := { infrastructure := true, readOnly := true } },
    { name := "team", dependsOn := ["core"] },
    { name := "core", paths := ["lib/core"], flags := { ownersOnly := true } },
    { name := "team/ui", paths := ["team/ui"], flags := { readOnly := true } },
    { name := "team", paths := ["team"] }]

theorem own_rearranged (x : String) :
    arranged.ownPaths x = rearranged.ownPaths x ∧
      (x ≠ "docs" → arranged.ownDepends x = rearranged.ownDepends x) := by
  have hlisted : ∀ x ∈ ["team", "team/ui", "core", "docs", "ci"],
      arranged.ownPaths x = rearranged.ownPaths x ∧
        (x ≠ "docs" → arranged.ownDepends x = rearranged.ownDepends x) := by
    decide +kernel
  by_cases hx : x ∈ ["team", "team/ui", "core", "docs", "ci"]
  · exact hlisted x hx
  · have ha : arranged.sections.filterMap Definitions.Section.moduleName? ⊆
        ["team", "team/ui", "core", "docs", "ci"] := by
      decide +kernel
    have hr : rearranged.sections.filterMap Definitions.Section.moduleName? ⊆
        ["team", "team/ui", "core", "docs", "ci"] := by
      decide +kernel
    obtain ⟨hpaths, hdepends⟩ := Definitions.own_eq_nil_of_notMem fun h => hx (ha h)
    obtain ⟨hpaths', hdepends'⟩ := Definitions.own_eq_nil_of_notMem fun h => hx (hr h)
    rw [hpaths, hpaths', hdepends, hdepends']
    exact ⟨rfl, fun _ => rfl⟩

theorem rearranged_gives_same_answers :
    arranged.load "team/ui" = some teamUi ∧
    (∀ x, Relevant arranged teamUi x → arranged.ownPaths x = rearranged.ownPaths x ∧
      arranged.ownDepends x = rearranged.ownDepends x) ∧
    arranged.ownDepends "docs" ≠ rearranged.ownDepends "docs" ∧
    ∃ t', rearranged.load "team/ui" = some t' ∧
      resolve rearranged t' = resolve arranged teamUi ∧
      ∀ e, e ∈ (plan rearranged t').hidden ↔ e ∈ (plan arranged teamUi).hidden := by
  have ht : arranged.load "team/ui" = some teamUi := by decide +kernel
  have hmet : expansions arranged.load teamUi =
      [(teamUi, 0), ({ name := "core", paths := ["lib/core"] }, 1)] := by
    decide +kernel
  have hdocs : ¬ Relevant arranged teamUi "docs" := by
    rintro ⟨m, k, y, hm, hy, hx⟩
    have hnames : y = "team/ui" ∨ y = "core" := by
      rw [hmet] at hm
      simp only [List.mem_cons, Prod.mk.injEq, List.not_mem_nil, or_false] at hm
      rcases hm with ⟨rfl, -⟩ | ⟨rfl, -⟩
      · simpa [teamUi] using hy
      · exact .inr (by simpa using hy)
    rcases hnames with rfl | rfl
    · exact absurd hx (by decide +kernel)
    · exact absurd hx (by decide +kernel)
  have hsame : ∀ x, Relevant arranged teamUi x → arranged.ownPaths x = rearranged.ownPaths x ∧
      arranged.ownDepends x = rearranged.ownDepends x := by
    intro x hx
    obtain ⟨hpaths, hdepends⟩ := own_rearranged x
    exact ⟨hpaths, hdepends fun h => hdocs (h ▸ hx)⟩
  have hmarks : ∀ x ∈ arranged.names,
      (arranged.ownFlags x).infrastructure = (rearranged.ownFlags x).infrastructure := by
    decide +kernel
  obtain ⟨t', ht', hr, hplan⟩ := answers_depend_on_relevant ht hsame
  refine ⟨ht, hsame, by decide +kernel, t', ht', hr, ?_⟩
  exact (hplan (fun x => (own_rearranged x).1) hmarks).1

end ModuleGraph
