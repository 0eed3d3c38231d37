import ModuleGraph.Proofs.Lookup

/-!
# Inherited dependencies

A name and the names above it form its lineage. A module that names no dependency has those of the
nearest one in its lineage that names some, as long as every name up to there is a module.
-/

namespace ModuleGraph

/-! ### Lineage -/

/-- A name and those above it, from the inside out: each name is cut at its last separator. -/
def lineage (name : String) : List String :=
  name ::
    match _ : parentName? name with
    | none => []
    | some parent => lineage parent
termination_by name.length
decreasing_by exact length_lt_of_parentName? ‹parentName? _ = some _›

theorem lineage_eq (name : String) :
    lineage name = name :: ((parentName? name).map lineage).getD [] := by
  rw [lineage]
  split <;> simp [*]

theorem count_dropWhile_ne (a : Char) (s : List Char) :
    (s.dropWhile (· != a)).count a = s.count a := by
  induction s with
  | nil => rfl
  | cons c s ih =>
    by_cases h : c = a
    · simp [h]
    · simp [h, ih]

/-- A parent has one separator less than its child, and a name without parent has none. -/
theorem count_separator_parentChars? (name : List Char) :
    name.count Path.separator =
      ((parentChars? name).map fun parent => parent.count Path.separator + 1).getD 0 := by
  rw [← List.count_reverse, ← count_dropWhile_ne]
  unfold parentChars?
  have hhead := List.head_dropWhile_not (· != Path.separator) (l := name.reverse)
  split
  · simp [*]
  · rename_i c s hs
    have hc : c = Path.separator := by simpa [hs] using hhead
    simp [hs, hc]

theorem length_lineage (name : String) :
    (lineage name).length = name.toList.count Path.separator + 1 := by
  induction name using parent_induction with
  | h name ih =>
    rw [lineage_eq, count_separator_parentChars?]
    cases hp : parentChars? name.toList with
    | none => simp [parentName?, hp]
    | some p =>
      have hparent : parentName? name = some (String.ofList p) := by simp [parentName?, hp]
      simp [hparent, ih _ hparent]

namespace Definitions

variable {d : Definitions} {n : String} {m : Module}

theorem load_eq_none_iff : d.load n = none ↔ d.ownPaths n = [] := by
  rw [← Option.not_isSome_iff_eq_none, load_isSome, own?_isSome_iff, not_not]

theorem ownPaths_ne_nil_of_load (h : d.load n = some m) : d.ownPaths n ≠ [] := by
  rw [Ne, ← load_eq_none_iff, h]
  exact Option.some_ne_none m

/-! ### The module inherited from -/

/-- The lineage of a name as far as its names are modules. -/
def moduleLineage (d : Definitions) (name : String) : List String :=
  (lineage name).takeWhile fun x => d.ownPaths x ≠ []

/-- The nearest name of the lineage that has dependencies of its own. -/
def provider? (d : Definitions) (name : String) : Option String :=
  (d.moduleLineage name).find? fun x => d.ownDepends x ≠ []

def providedDepends (d : Definitions) (name : String) : List String :=
  ((d.provider? name).map d.ownDepends).getD []

theorem moduleLineage_eq_nil (h : d.ownPaths n = []) : d.moduleLineage n = [] := by
  simp [moduleLineage, lineage_eq, h]

theorem moduleLineage_eq_cons (h : d.ownPaths n ≠ []) :
    d.moduleLineage n = n :: ((parentName? n).map d.moduleLineage).getD [] := by
  rw [moduleLineage, lineage_eq, List.takeWhile_cons_of_pos (by simpa using h)]
  cases parentName? n <;> rfl

theorem provider?_of_ownDepends (h : d.ownPaths n ≠ []) (hd : d.ownDepends n ≠ []) :
    d.provider? n = some n := by
  rw [provider?, moduleLineage_eq_cons h, List.find?_cons_of_pos (by simpa using hd)]

theorem provider?_of_parent (h : d.ownPaths n ≠ []) (hd : d.ownDepends n = []) :
    d.provider? n = (parentName? n).bind d.provider? := by
  rw [provider?, moduleLineage_eq_cons h, List.find?_cons_of_neg (by simpa using hd)]
  cases parentName? n <;> rfl

theorem providedDepends_eq_nil_iff : d.providedDepends n = [] ↔ d.provider? n = none := by
  unfold providedDepends
  cases h : d.provider? n with
  | none => simp
  | some x =>
    have hx : d.ownDepends x ≠ [] := by simpa using List.find?_some h
    simpa using hx

/-! ### Loading -/

theorem dependsOn_inherit (parent : Option Module) (h : m.dependsOn = []) :
    (inherit m parent).dependsOn = (parent.map Module.dependsOn).getD [] := by
  cases parent with
  | none => exact h
  | some p => by_cases hp : p.dependsOn = [] <;> simp [inherit, h, hp]

theorem inheritedDepends_inherit (parent : Option Module) (h : m.inheritedDepends = false) :
    (inherit m parent).inheritedDepends = decide ((parent.map Module.dependsOn).getD [] ≠ []) := by
  cases parent with
  | none => simpa [inherit] using h
  | some p => by_cases hp : p.dependsOn = [] <;> simp [inherit, h, hp]

theorem depends_load (d : Definitions) (n : String) :
    ((d.load n).map Module.dependsOn).getD [] = d.providedDepends n := by
  induction n using parent_induction with
  | h n ih =>
    by_cases hpaths : d.ownPaths n = []
    · rw [load_eq_none_iff.2 hpaths, providedDepends, provider?, moduleLineage_eq_nil hpaths]
      rfl
    · rw [load_eq, own?, if_neg hpaths]
      by_cases hd : d.ownDepends n = []
      · rw [providedDepends, provider?_of_parent hpaths hd]
        simp only [hd, Option.map_some, if_true, Option.getD_some, dependsOn_inherit]
        cases hp : parentName? n with
        | none => rfl
        | some p => exact ih p hp
      · simp [hd, providedDepends, provider?_of_ownDepends hpaths hd]

theorem dependsOn_of_load (h : d.load n = some m) : m.dependsOn = d.providedDepends n := by
  simpa [h] using d.depends_load n

theorem inheritedDepends_of_load (h : d.load n = some m) :
    m.inheritedDepends = decide (d.ownDepends n = [] ∧ d.providedDepends n ≠ []) := by
  have hpaths := ownPaths_ne_nil_of_load h
  rw [load_eq, own?, if_neg hpaths, Option.map_some, Option.some.injEq] at h
  subst h
  by_cases hd : d.ownDepends n = []
  · simp only [hd, if_true, true_and, inheritedDepends_inherit]
    rw [providedDepends, provider?_of_parent hpaths hd]
    cases parentName? n with
    | none => rfl
    | some p => simp [depends_load, providedDepends]
  · simp [hd]

/-- The values given for the dependencies of a module, in text order. -/
def dependsValues (d : Definitions) (name : String) : List String :=
  (d.sectionsOf name).flatMap (·.values "depends")

theorem ownDepends_eq (d : Definitions) (n : String) :
    d.ownDepends n = ((d.dependsValues n).map Text.trim).filter (· ≠ "") := by
  simp only [ownDepends, dependsValues, List.map_flatMap, List.filter_flatMap]
  rfl

theorem ownDepends_eq_nil_iff : d.ownDepends n = [] ↔ ∀ v ∈ d.dependsValues n, Text.trim v = "" := by
  simp [ownDepends_eq, List.filter_eq_nil_iff]

end Definitions

/-- The dependencies of a module are its own values without blanks around them, if one of these says
anything. Otherwise they are those of the nearest module above it that has dependencies of its own,
with nothing but modules in between, or there are none. A lineage ends after as many names as the
name has parts, empty parts included. -/
theorem load_inherits_from_nearest (d : Definitions) (n : String) :
    (lineage n).length = n.toList.count Path.separator + 1 ∧
    ∀ m, d.load n = some m →
      ((∃ v ∈ d.dependsValues n, Text.trim v ≠ "") →
        m.dependsOn = ((d.dependsValues n).map Text.trim).filter (· ≠ "") ∧
          m.inheritedDepends = false) ∧
      ((∀ v ∈ d.dependsValues n, Text.trim v = "") →
        (∀ x, d.provider? n = some x →
          m.dependsOn = d.ownDepends x ∧ m.inheritedDepends = true) ∧
        (d.provider? n = none → m.dependsOn = [] ∧ m.inheritedDepends = false)) := by
  refine ⟨length_lineage n, fun m hm => ?_⟩
  rw [Definitions.dependsOn_of_load hm, Definitions.inheritedDepends_of_load hm,
    ← Definitions.ownDepends_eq]
  refine ⟨fun hown => ?_, fun hblank => ?_⟩
  · have hd : d.ownDepends n ≠ [] := by simpa [Definitions.ownDepends_eq_nil_iff] using hown
    have hx := Definitions.provider?_of_ownDepends (Definitions.ownPaths_ne_nil_of_load hm) hd
    simp [Definitions.providedDepends, hx, hd]
  · have hd : d.ownDepends n = [] := Definitions.ownDepends_eq_nil_iff.2 hblank
    refine ⟨fun x hx => ?_, fun hnone => ?_⟩
    · have hne : d.providedDepends n ≠ [] := by
        rw [Ne, Definitions.providedDepends_eq_nil_iff, hx]
        exact Option.some_ne_none x
      refine ⟨?_, by simp [hd, hne]⟩
      rw [Definitions.providedDepends, hx]
      rfl
    · have hnil := Definitions.providedDepends_eq_nil_iff.2 hnone
      simp [hnil]

/-- `team//ui` has two names above it, the nearer of them with a blank entry only. -/
def nested : Definitions where
  source := "<inline>"
  sections :=
    [⟨"module", some "team//ui", [⟨"path", some "team/ui"⟩]⟩,
      ⟨"module", some "team", [⟨"depends", some "core "⟩]⟩,
      ⟨"module", some "team/", [⟨"path", some "team/shared"⟩, ⟨"depends", some " "⟩]⟩,
      ⟨"module", some "team", [⟨"path", some "team"⟩, ⟨"depends", some "lib"⟩]⟩]

theorem nested_inherits_from_outermost :
    lineage "team//ui" = ["team//ui", "team/", "team"] ∧ nested.provider? "team//ui" = some "team" ∧
    ∃ m, nested.load "team//ui" = some m ∧ m.dependsOn = ["core", "lib"] ∧
      m.inheritedDepends = true := by
  have hlineage : lineage "team//ui" = ["team//ui", "team/", "team"] := by decide +kernel
  have hprovider : nested.provider? "team//ui" = some "team" := by decide +kernel
  have hblank : ∀ v ∈ nested.dependsValues "team//ui", Text.trim v = "" := by decide +kernel
  have hdepends : nested.ownDepends "team" = ["core", "lib"] := by decide +kernel
  have hpaths : nested.ownPaths "team//ui" ≠ [] := by decide +kernel
  obtain ⟨m, hm⟩ := Option.ne_none_iff_exists'.1 (mt Definitions.load_eq_none_iff.1 hpaths)
  obtain ⟨-, hload⟩ := load_inherits_from_nearest nested "team//ui"
  obtain ⟨hfrom, hinherited⟩ := ((hload m hm).2 hblank).1 "team" hprovider
  exact ⟨hlineage, hprovider, m, hm, hfrom.trans hdepends, hinherited⟩

end ModuleGraph
