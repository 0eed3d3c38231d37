import ModuleGraph.Program
import ModuleGraph.Proofs.Failing
import ModuleGraph.Proofs.Lookup
import ModuleGraph.Proofs.Traversal
import Mathlib.Data.List.Forall2

/-!
# Listing and lookup

The list of names and the lookup of a module read the sections of a definition text each in its own
way. They agree on what a module is: the listed names are those that load, so no plan has to skip a
module and no line of a listing is lost.
-/

namespace ModuleGraph

/-- Members that come earlier in a filtered list come from earlier members of the list. -/
theorem findIdx_lt_of_idxOf_filterMap_lt {α β : Type} [DecidableEq β] {f : α → Option β}
    {xs : List α} {y z : β} (h : (xs.filterMap f).idxOf y < (xs.filterMap f).idxOf z) :
    xs.findIdx (f · = some y) < xs.findIdx (f · = some z) := by
  induction xs with
  | nil => exact absurd h (Nat.lt_irrefl _)
  | cons x xs ih =>
    cases hx : f x with
    | none =>
      rw [List.filterMap_cons_none hx] at h
      simpa [List.findIdx_cons, hx] using ih h
    | some w =>
      rw [List.filterMap_cons_some hx] at h
      -- Nothing comes before the head, so the head is not the later member.
      have hz : w ≠ z := by
        rintro rfl
        rw [List.idxOf_cons_self] at h
        exact absurd h (Nat.not_lt_zero _)
      by_cases hy : w = y
      · simp [List.findIdx_cons, hx, hy, hy ▸ hz]
      · rw [List.idxOf_cons_ne _ hy, List.idxOf_cons_ne _ hz] at h
        simpa [List.findIdx_cons, hx, hy, hz] using ih (Nat.lt_of_succ_lt_succ h)

namespace Definitions

variable {d : Definitions} {n : String} {m : Module}

/-- Where the first section stands that declares a usable path of the module. -/
def firstDeclaration (d : Definitions) (name : String) : Nat :=
  d.sections.findIdx fun s => s.moduleName? = some name ∧ s.paths ≠ []

theorem firstDeclaration_eq (d : Definitions) (name : String) :
    d.firstDeclaration name = d.sections.findIdx (·.declared? = some name) := by
  simp only [firstDeclaration, declared?_eq_some_iff, and_comm]

theorem pairwise_firstDeclaration_names (d : Definitions) :
    d.names.Pairwise fun x y => d.firstDeclaration x < d.firstDeclaration y := by
  refine (pairwise_idxOf_firsts _).imp fun {x y} h => ?_
  rw [firstDeclaration_eq, firstDeclaration_eq]
  exact findIdx_lt_of_idxOf_filterMap_lt h

theorem require_eq_ok_iff : d.require n = .ok m ↔ d.load n = some m := by
  unfold require
  split <;> simp [*]

theorem exists_require_iff : (∃ m, d.require n = .ok m) ↔ n ∈ d.names := by
  simp only [require_eq_ok_iff, mem_names_iff]

theorem require_of_notMem_names (h : n ∉ d.names) : d.require n = .error (.notFound n) := by
  unfold require
  split
  · rename_i m hm
    exact absurd (mem_names_iff.2 ⟨m, hm⟩) h
  · rfl

end Definitions

/-! ### Plans skip no module -/

variable {d : Definitions} {t : Module} {n : String}

theorem skipWarnings_eq_nil (d : Definitions) (t : Module) : Plan.skipWarnings d t = [] := by
  rw [Plan.skipWarnings, List.map_eq_nil_iff, List.filter_eq_nil_iff]
  intro n hn
  obtain ⟨m, hm⟩ := Definitions.mem_names_iff.1 (List.mem_of_mem_filter hn)
  simp [hm]

theorem warnings_plan (d : Definitions) (t : Module) :
    (plan d t).warnings = (resolve d t).warnings := by
  simp [plan, skipWarnings_eq_nil]

theorem moduleSkipped_notMem_warnings : .moduleSkipped n ∉ (resolve d t).warnings := by
  have hparent : ∀ m, .moduleSkipped n ∉ Resolution.parentWarnings d.load m := by
    intro m h
    obtain ⟨parent, path, hw⟩ := Resolution.eq_of_mem_parentWarnings h
    cases hw
  intro h
  rcases List.mem_append.1 h with h | h
  · exact hparent t h
  · obtain ⟨v, -, hv⟩ := List.mem_flatMap.1 h
    cases v with
    | expanded m k => exact hparent m hv
    | repeated | tooDeep | missing => cases List.mem_singleton.1 hv

/-! ### Listings lose no line -/

namespace Selection

variable {matcher : Matcher} {names patterns : List String}

theorem ofPattern_subset {p : String} {selected : List String}
    (h : ofPattern matcher names p = .ok selected) : selected ⊆ names := by
  unfold ofPattern at h
  split at h
  · cases h
    exact List.filter_subset_self _
  · split at h
    · cases h
    · cases h
      exact List.filter_subset_self _

theorem ofEach_subset {each : List (List String)} (h : ofEach matcher names patterns = .ok each) :
    ∀ selected ∈ each, selected ⊆ names := by
  induction patterns generalizing each with
  | nil =>
    cases h
    exact fun _ hs => absurd hs List.not_mem_nil
  | cons p ps ih =>
    unfold ofEach at h
    split at h
    · cases h
    · rename_i selected hp
      obtain ⟨rest, hps, rfl⟩ := exists_of_map_eq_ok h
      exact List.forall_mem_cons.2 ⟨ofPattern_subset hp, ih hps⟩

theorem select_subset {selected : List String} (h : select matcher names patterns = .ok selected) :
    selected ⊆ names := by
  obtain ⟨each, he, rfl⟩ := exists_of_map_eq_ok h
  intro n hn
  obtain ⟨part, hpart, hn⟩ := List.mem_flatten.1 (mem_firsts.1 hn)
  exact ofEach_subset he part hpart hn

end Selection

theorem selected_subset_names {patterns names : List String}
    (h : Program.selected d patterns = .ok names) : names ⊆ d.names := by
  unfold Program.selected at h
  split at h
  · cases h
    exact List.Subset.refl _
  · exact Selection.select_subset h

theorem Report.prefix_listLine (all : Bool) (m : Module) :
    m.name.toList <+: (Report.listLine all m).toList := by
  rw [Report.listLine, String.toList_append, String.toList_append, List.append_assoc]
  exact List.prefix_append _ _

theorem forall₂_list {names : List String} (all : Bool) (h : names ⊆ d.names) :
    List.Forall₂
      (fun n line => ∃ m, d.load n = some m ∧ m.name = n ∧ line = Report.listLine all m ∧
        n.toList <+: line.toList)
      names (Report.list d names all) := by
  induction names with
  | nil => exact .nil
  | cons n names ih =>
    obtain ⟨hn, hnames⟩ := List.cons_subset.1 h
    obtain ⟨m, hm⟩ := Definitions.mem_names_iff.1 hn
    obtain rfl := Definitions.name_of_load hm
    rw [Report.list, List.filterMap_cons_some hm, List.map_cons]
    exact .cons ⟨m, hm, rfl, rfl, Report.prefix_listLine all m⟩ (ih hnames)

/-! ### Agreement -/

variable {s : Store} {text : Option String}

theorem answer_of_definitions {α : Type} (hd : s.definitions text = .ok d)
    (question : Definitions → Except CatalogError α) : s.answer question text = question d := by
  rw [Store.answer, hd]
  rfl

theorem exists_map_require_iff {α : Type} (f : Module → α) :
    (∃ a, (d.require n).map f = .ok a) ↔ n ∈ d.names := by
  rw [← Definitions.exists_require_iff]
  constructor
  · rintro ⟨a, ha⟩
    obtain ⟨m, hm, -⟩ := exists_of_map_eq_ok ha
    exact ⟨m, hm⟩
  · rintro ⟨m, hm⟩
    refine ⟨f m, ?_⟩
    rw [hm]
    rfl

/-- Whatever definitions the store holds, the listed names are those of the modules that it loads,
resolves and plans for; of any other name it says that it is not found. Names are listed once, in
the order of the first sections that declare a usable path of each. A plan has the warnings of the
resolution of its module, none of them for a module skipped, and a listing has one line for each
name selected, which begins with the name. -/
theorem listed_iff_answered (hd : s.definitions text = .ok d) :
    s.answer (fun d => .ok d.names) text = .ok d.names ∧
    (∀ n,
      (n ∈ d.names ↔ ∃ m, s.answer (·.require n) text = .ok m) ∧
      (n ∈ d.names ↔ ∃ r, s.answer (·.resolution n) text = .ok r) ∧
      (n ∈ d.names ↔ ∃ p, s.answer (·.visibility n) text = .ok p) ∧
      (n ∉ d.names →
        s.answer (·.require n) text = .error (.notFound n) ∧
        s.answer (·.resolution n) text = .error (.notFound n) ∧
        s.answer (·.visibility n) text = .error (.notFound n))) ∧
    d.names.Nodup ∧
    d.names.Pairwise (fun x y => d.firstDeclaration x < d.firstDeclaration y) ∧
    (∀ n p, s.answer (·.visibility n) text = .ok p →
      (∃ r, s.answer (·.resolution n) text = .ok r ∧ p.warnings = r.warnings) ∧
      ∀ x, .moduleSkipped x ∉ p.warnings) ∧
    ∀ patterns names all, Program.selected d patterns = .ok names →
      List.Forall₂
        (fun n line => ∃ m, d.load n = some m ∧ m.name = n ∧ line = Report.listLine all m ∧
          n.toList <+: line.toList)
        names (Report.list d names all) := by
  simp only [answer_of_definitions hd]
  refine ⟨trivial, ?_, nodup_firsts _, d.pairwise_firstDeclaration_names, ?_, ?_⟩
  · intro n
    refine ⟨Definitions.exists_require_iff.symm, (exists_map_require_iff _).symm,
      (exists_map_require_iff _).symm, ?_⟩
    intro hn
    have hout := Definitions.require_of_notMem_names hn
    refine ⟨hout, ?_, ?_⟩
    · rw [Definitions.resolution, hout]
      rfl
    · rw [Definitions.visibility, hout]
      rfl
  · intro n p hp
    obtain ⟨m, hm, rfl⟩ := exists_of_map_eq_ok hp
    rw [warnings_plan]
    refine ⟨⟨resolve d m, ?_, rfl⟩, fun x => moduleSkipped_notMem_warnings⟩
    rw [Definitions.resolution, hm]
    rfl
  · intro patterns names all h
    exact forall₂_list all (selected_subset_names h)

/-- The sections of `a/b` lie apart, the one with its path last, and `ghost` has no usable path. -/
def scattered : String :=
  "[module \"a/b\"]\n\tdepends = a\n[MODULE \"ghost\"]\n\tpath = ./\n[module \"a\"]\n" ++
    "\tpath = src\n[module \"a/b\"]\n\tpath = src/b/\n"

def scatteredSections : List Definitions.Section :=
  [⟨"module", some "a/b", [⟨"depends", some "a"⟩]⟩,
    ⟨"MODULE", some "ghost", [⟨"path", some "./"⟩]⟩,
    ⟨"module", some "a", [⟨"path", some "src"⟩]⟩,
    ⟨"module", some "a/b", [⟨"path", some "src/b/"⟩]⟩]

theorem sectionsOf_scattered (n : String) :
    Definitions.sectionsOf ⟨".modgit", scatteredSections⟩ n =
      scatteredSections.filter (·.label = some n) := by
  have hlabel : ∀ s ∈ scatteredSections, s.moduleName? = s.label := by
    simp only [Definitions.Section.moduleName?, Text.sameAscii_eq]
    decide +kernel
  refine List.filter_congr fun s hs => ?_
  rw [hlabel s hs]

theorem list_scattered :
    Report.list ⟨".modgit", scatteredSections⟩ ["a", "a/b"] true = ["a: src", "a/b: src/b"] := by
  have ha : Definitions.own? ⟨".modgit", scatteredSections⟩ "a" =
      some { name := "a", paths := ["src"] } := by
    simp only [Definitions.own?, Definitions.ownPaths, Definitions.ownDepends,
      Definitions.ownFlags, sectionsOf_scattered]
    decide +kernel
  have hb : Definitions.own? ⟨".modgit", scatteredSections⟩ "a/b" =
      some { name := "a/b", paths := ["src/b"], dependsOn := ["a"] } := by
    simp only [Definitions.own?, Definitions.ownPaths, Definitions.ownDepends,
      Definitions.ownFlags, sectionsOf_scattered]
    decide +kernel
  simp [Report.list, Definitions.load_of_own? ha (.inr (by decide +kernel)),
    Definitions.load_of_own? hb (.inl (by decide)), Report.listLine, Report.joinBlanks,
    Flags.labels]

theorem scattered_answers_listed :
    ∃ d, (Store.file ".modgit").definitions (some scattered) = .ok d ∧
      d.names = ["a", "a/b"] ∧ d.firstDeclaration "a" < d.firstDeclaration "a/b" ∧
      (∃ p, (Store.file ".modgit").answer (·.visibility "a/b") (some scattered) = .ok p) ∧
      (Store.file ".modgit").answer (·.visibility "ghost") (some scattered) =
        .error (.notFound "ghost") ∧
      Report.list d ["a", "a/b"] true = ["a: src", "a/b: src/b"] ∧
      List.Forall₂ (fun n line => n.toList <+: line.toList) ["a", "a/b"]
        (Report.list d ["a", "a/b"] true) := by
  have hd : (Store.file ".modgit").definitions (some scattered) =
      .ok ⟨".modgit", scatteredSections⟩ := by
    decide +kernel
  have hnames : (⟨".modgit", scatteredSections⟩ : Definitions).names = ["a", "a/b"] := by
    decide +kernel
  obtain ⟨-, hfound, -, hordered, -, hlines⟩ := listed_iff_answered hd
  rw [hnames] at hordered
  obtain ⟨-, -, hplan, -⟩ := hfound "a/b"
  obtain ⟨-, -, -, hghost⟩ := hfound "ghost"
  refine ⟨_, hd, hnames, by simpa using hordered, hplan.1 (by simp [hnames]), ?_, ?_, ?_⟩
  · exact (hghost (by simp [hnames])).2.2
  · exact list_scattered
  · have hall : Program.selected ⟨".modgit", scatteredSections⟩ [] = .ok ["a", "a/b"] := by
      rw [← hnames]
      rfl
    refine (hlines [] _ true hall).imp ?_
    rintro n line ⟨m, -, -, -, hname⟩
    exact hname

end ModuleGraph
