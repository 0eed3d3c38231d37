import ModuleGraph.Proofs.Planning

/-!
# What the patterns of a plan exclude

Each hidden path goes into a line `!/path/` as it is, and a sparse checkout reads such a line as a
pattern. Where no hidden path holds a character with a meaning in patterns, the lines exclude what
lies within the hidden paths and nothing else; a `*` in a declared path excludes its neighbours too.
-/

namespace ModuleGraph

open ModuleGraph.Path

namespace SparsePattern

/-- What is left of a text behind a run of characters, none of them a separator. -/
def afterRun : List Char → List (List Char)
  | [] => [[]]
  | c :: s => (c :: s) :: if c = separator then [] else afterRun s

/-- A pattern covers a path: `*` stands for a run of characters other than separators, `?` for one
of them, and a backslash makes the next character stand for itself, as all others do. -/
def covers : List Char → List Char → Bool
  | [], s => s.isEmpty
  | '*' :: ps, s => (afterRun s).any (covers ps)
  | '?' :: ps, c :: s => c != separator && covers ps s
  | ['\\'], _ => false
  | '\\' :: p :: ps, c :: s => p == c && covers ps s
  | p :: ps, c :: s => p == c && covers ps s
  | _ :: _, [] => false

/-- The pattern in a line that excludes something. -/
def exclusionText? (line : String) : Option (List Char) :=
  match line.toList with
  | '!' :: '/' :: s => if s.getLast? = some '/' then some s.dropLast else none
  | _ => none

/-- A line excludes a path if its pattern covers the path or a directory above it. -/
def Excludes (line path : String) : Prop :=
  ∃ text, exclusionText? line = some text ∧
    ∃ dir, isWithin path dir = true ∧ covers text dir.toList = true

/-- The character stands for itself in a pattern. -/
def isLiteral (c : Char) : Bool := c != '*' && c != '?' && c != '\\'

variable {e p line : String}

theorem covers_iff_eq {ps s : List Char} (h : ∀ c ∈ ps, isLiteral c = true) :
    covers ps s = true ↔ ps = s := by
  induction ps generalizing s with
  | nil => cases s <;> simp [covers]
  | cons c ps ih =>
    obtain ⟨hc, hps⟩ := List.forall_mem_cons.1 h
    simp only [isLiteral, Bool.and_eq_true, bne_iff_ne, ne_eq] at hc
    obtain ⟨⟨hstar, hany⟩, hescape⟩ := hc
    cases s with
    | nil => simp [covers, hescape]
    | cons c' s => simp [covers, hescape, ih hps]

theorem exclusionText?_exclusion (e : String) :
    exclusionText? (Plan.exclusion e) = some e.toList := by
  have hline : (Plan.exclusion e).toList = '!' :: '/' :: (e.toList ++ ['/']) := by
    simp [Plan.exclusion, ToString.toString]
  simp [exclusionText?, hline]

theorem not_excludes_everything (p : String) : ¬Excludes Plan.everything p := by
  rintro ⟨text, htext, -⟩
  cases htext

theorem excludes_exclusion_iff (h : ∀ c ∈ e.toList, isLiteral c = true) :
    Excludes (Plan.exclusion e) p ↔ isWithin p e = true := by
  unfold Excludes
  simp only [exclusionText?_exclusion, Option.some.injEq, exists_eq_left']
  constructor
  · rintro ⟨dir, hdir, hc⟩
    obtain rfl := String.toList_inj.1 ((covers_iff_eq h).1 hc)
    exact hdir
  · intro hp
    exact ⟨e, hp, (covers_iff_eq h).2 rfl⟩

end SparsePattern

open SparsePattern

variable {d : Definitions} {t : Module} {n p line : String}

theorem mem_sparsePatterns_plan :
    line ∈ (plan d t).sparsePatterns ↔
      line = Plan.everything ∨ ∃ e ∈ (plan d t).hidden, Plan.exclusion e = line := by
  simp [Plan.sparsePatterns, plan]

/-- Where every character of the hidden paths stands for itself, the patterns exclude exactly what
lies within a hidden path, and so no needed path. -/
theorem literal_patterns_exclude_hidden (ht : d.load n = some t)
    (h : ∀ e ∈ (plan d t).hidden, ∀ c ∈ e.toList, isLiteral c = true) :
    (∀ p, (∃ line ∈ (plan d t).sparsePatterns, Excludes line p) ↔
      ∃ e ∈ (plan d t).hidden, isWithin p e = true) ∧
    ∀ q, Needed d t q → ∀ line ∈ (plan d t).sparsePatterns, ¬Excludes line q := by
  have hexact : ∀ p, (∃ line ∈ (plan d t).sparsePatterns, Excludes line p) ↔
      ∃ e ∈ (plan d t).hidden, isWithin p e = true := by
    intro p
    constructor
    · rintro ⟨line, hline, hp⟩
      rcases mem_sparsePatterns_plan.1 hline with rfl | ⟨e, he, rfl⟩
      · exact absurd hp (not_excludes_everything p)
      · exact ⟨e, he, (excludes_exclusion_iff (h e he)).1 hp⟩
    · rintro ⟨e, he, hp⟩
      refine ⟨Plan.exclusion e, mem_sparsePatterns_plan.2 (.inr ⟨e, he, rfl⟩), ?_⟩
      exact (excludes_exclusion_iff (h e he)).2 hp
  refine ⟨hexact, ?_⟩
  intro q hq line hline hex
  obtain ⟨e, he, hwithin⟩ := (hexact q).1 ⟨line, hline, hex⟩
  rw [((mem_hidden_iff ht).1 he).2 q hq] at hwithin
  cases hwithin

theorem monorepo_patterns_exclude_hidden :
    monorepo.load "app" = some app ∧
    (∀ e ∈ (plan monorepo app).hidden, ∀ c ∈ e.toList, isLiteral c = true) ∧
    (∃ line ∈ (plan monorepo app).sparsePatterns, Excludes line "lib/vendor/x") ∧
    ∀ line ∈ (plan monorepo app).sparsePatterns, ¬Excludes line "lib" := by
  have hliteral : ∀ e ∈ (plan monorepo app).hidden, ∀ c ∈ e.toList, isLiteral c = true := by
    have hall : ∀ e ∈ ["lib/vendor", ".github/bin", "docs"], e.toList.all isLiteral = true := by
      decide +kernel
    rw [hidden_monorepo_app]
    intro e he
    exact List.all_eq_true.1 (hall e he)
  obtain ⟨hexact, hsafe⟩ := literal_patterns_exclude_hidden load_monorepo_app hliteral
  have hlib : "lib" ∈ (resolve monorepo app).paths := by simp [paths_monorepo_app]
  have hvendor : "lib/vendor" ∈ (plan monorepo app).hidden := by simp [hidden_monorepo_app]
  have hheld : isWithin "lib/vendor/x" "lib/vendor" = true := by decide +kernel
  refine ⟨load_monorepo_app, hliteral, ?_, hsafe "lib" (.inl hlib)⟩
  exact (hexact _).2 ⟨_, hvendor, hheld⟩

/-- A generator owns the path `lib/*`, spelled as a name and not meant as a pattern. -/
def starred : String :=
  "[module \"app\"]\n\tpath = lib/core\n[module \"generator\"]\n\tpath = lib/*\n"

def starredSections : List Definitions.Section :=
  [⟨"module", some "app", [⟨"path", some "lib/core"⟩]⟩,
    ⟨"module", some "generator", [⟨"path", some "lib/*"⟩]⟩]

/-- The line for `lib/*` excludes the path of `app`, which no hidden path holds. -/
theorem starred_excludes_needed_path :
    ∃ d t, Definitions.parse "<inline>" starred = .ok d ∧ d.load "app" = some t ∧
      (plan d t).sparsePatterns = ["/*", "!/lib/*/"] ∧ "lib/core" ∈ (resolve d t).paths ∧
      (∀ e ∈ (plan d t).hidden, isWithin "lib/core" e = false) ∧
      Excludes "!/lib/*/" "lib/core" := by
  refine ⟨⟨"<inline>", starredSections⟩, { name := "app", paths := ["lib/core"] }, ?_⟩
  have hhidden : (plan ⟨"<inline>", starredSections⟩
      { name := "app", paths := ["lib/core"] }).hidden = ["lib/*"] := by
    decide +kernel
  refine ⟨by decide +kernel, by decide +kernel, ?_, by decide +kernel, ?_, ?_⟩
  · rw [Plan.sparsePatterns, hhidden]
    rfl
  · rw [hhidden]
    decide
  · exact ⟨"lib/*".toList, by decide +kernel, "lib/core", isWithin_self _, by decide +kernel⟩

end ModuleGraph
