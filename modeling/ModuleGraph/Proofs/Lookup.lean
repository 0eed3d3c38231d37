import ModuleGraph.Definitions
import Mathlib.Data.List.Basic

/-!
# Looking modules up

The names that are listed are the names that load. A module described by a single section loads as
that section says, and `sectionOf` writes such a section.
-/

namespace ModuleGraph.Definitions

variable {d : Definitions} {n : String} {s : Section}

theorem mem_sectionsOf : s ∈ d.sectionsOf n ↔ s ∈ d.sections ∧ s.moduleName? = some n := by
  simp [sectionsOf]

theorem declared?_eq_some_iff : s.declared? = some n ↔ s.paths ≠ [] ∧ s.moduleName? = some n := by
  unfold Section.declared?
  split <;> simp [*]

theorem ownPaths_ne_nil_iff : d.ownPaths n ≠ [] ↔ ∃ s ∈ d.sectionsOf n, s.paths ≠ [] := by
  simp [ownPaths, List.flatMap_eq_nil_iff]

theorem own?_isSome_iff : (d.own? n).isSome ↔ d.ownPaths n ≠ [] := by
  unfold own?
  split <;> simp [*]

theorem mem_names_iff : n ∈ d.names ↔ ∃ m, d.load n = some m := by
  rw [← Option.isSome_iff_exists, load_isSome, own?_isSome_iff, ownPaths_ne_nil_iff, names,
    mem_firsts, List.mem_filterMap]
  constructor
  · rintro ⟨s, hs, h⟩
    obtain ⟨hp, hn⟩ := declared?_eq_some_iff.1 h
    exact ⟨s, mem_sectionsOf.2 ⟨hs, hn⟩, hp⟩
  · rintro ⟨s, hs, hp⟩
    obtain ⟨hs, hn⟩ := mem_sectionsOf.1 hs
    exact ⟨s, hs, declared?_eq_some_iff.2 ⟨hp, hn⟩⟩

theorem own_eq_nil_of_notMem (h : n ∉ d.sections.filterMap Section.moduleName?) :
    d.ownPaths n = [] ∧ d.ownDepends n = [] := by
  have hnone : d.sectionsOf n = [] := by
    refine List.filter_eq_nil_iff.2 fun s hs hn => h ?_
    exact List.mem_filterMap.2 ⟨s, hs, of_decide_eq_true hn⟩
  rw [ownPaths, ownDepends, hnone]
  exact ⟨rfl, rfl⟩

/-! ### Loaded modules -/

theorem load_eq (d : Definitions) (n : String) :
    d.load n = (d.own? n).map fun m =>
      if m.dependsOn = [] then inherit m ((parentName? n).bind d.load) else m := by
  rw [load]
  cases d.own? n with
  | none => rfl
  | some m =>
    simp only [Option.map_some]
    split
    · split <;> simp [*, inherit]
    · rfl

@[simp] theorem paths_inherit (m : Module) (p : Option Module) : (inherit m p).paths = m.paths := by
  unfold inherit
  split
  · rfl
  · split <;> rfl

@[simp] theorem flags_inherit (m : Module) (p : Option Module) : (inherit m p).flags = m.flags := by
  unfold inherit
  split
  · rfl
  · split <;> rfl

theorem paths_and_flags_of_load {m : Module} (h : d.load n = some m) :
    m.paths = d.ownPaths n ∧ m.flags = d.ownFlags n := by
  rw [load_eq] at h
  obtain ⟨m', hm', rfl⟩ := Option.map_eq_some_iff.1 h
  have hown : m'.paths = d.ownPaths n ∧ m'.flags = d.ownFlags n := by
    simp only [own?, Option.ite_none_left_eq_some, Option.some.injEq] at hm'
    rw [← hm'.2]
    exact ⟨rfl, rfl⟩
  split
  · simpa using hown
  · exact hown

theorem exists_load_of_mem_ownPaths {p : String} (h : p ∈ d.ownPaths n) :
    ∃ m, d.load n = some m ∧ m.name = n ∧ m.paths = d.ownPaths n ∧ m.flags = d.ownFlags n := by
  have hsome : (d.load n).isSome := by
    rw [load_isSome, own?_isSome_iff]
    exact List.ne_nil_of_mem h
  obtain ⟨m, hm⟩ := Option.isSome_iff_exists.1 hsome
  obtain ⟨hpaths, hflags⟩ := paths_and_flags_of_load hm
  exact ⟨m, hm, name_of_load hm, hpaths, hflags⟩

/-! ### Modules with one section -/

theorem sectionsOf_eq_singleton (hd : (d.sections.filterMap Section.moduleName?).Nodup)
    (hs : s ∈ d.sections) (hn : s.moduleName? = some n) : d.sectionsOf n = [s] := by
  obtain ⟨before, after, he⟩ := List.append_of_mem hs
  rw [he, List.filterMap_append, List.filterMap_cons_some hn, List.nodup_append] at hd
  obtain ⟨-, hafter, hne⟩ := hd
  have hn_after := (List.nodup_cons.1 hafter).1
  rw [sectionsOf, he, List.filter_append, List.filter_cons_of_pos (by simpa using hn)]
  have hbefore : before.filter (·.moduleName? = some n) = [] := by
    refine List.filter_eq_nil_iff.2 fun s' hs' hn' => ?_
    have hmem := List.mem_filterMap.2 ⟨s', hs', of_decide_eq_true hn'⟩
    exact hne n hmem n List.mem_cons_self rfl
  have hlater : after.filter (·.moduleName? = some n) = [] := by
    refine List.filter_eq_nil_iff.2 fun s' hs' hn' => ?_
    exact hn_after (List.mem_filterMap.2 ⟨s', hs', of_decide_eq_true hn'⟩)
  rw [hbefore, hlater, List.nil_append]

/-- What a section says of the module that it alone describes. -/
def moduleOf (n : String) (s : Section) : Module where
  name := n
  paths := s.paths
  dependsOn := s.depends
  flags := Section.flagsAfter {} s

theorem own?_of_sectionsOf_eq_singleton (h : d.sectionsOf n = [s]) (hp : s.paths ≠ []) :
    d.own? n = some (moduleOf n s) := by
  simp [own?, ownPaths, ownDepends, ownFlags, moduleOf, h, hp]

/-- A module with dependencies of its own, or without a parent, inherits none. -/
theorem load_of_own? {m : Module} (ho : d.own? n = some m)
    (hd : m.dependsOn ≠ [] ∨ parentName? n = none) : d.load n = some m := by
  unfold load
  rw [ho]
  rcases hd with hd | hd
  · simp [hd]
  · by_cases he : m.dependsOn = []
    · simp only [he, if_true]
      split
      · rfl
      · rename_i parent hparent
        rw [hd] at hparent
        exact absurd hparent (by simp)
    · simp [he]

/-! ### Sections that describe a module -/

def knownKeys : List String := ["path", "depends", "readonly", "ownersonly", "role"]

/-- The values that a module has for a key; a flag that is not set has none. -/
def valuesOf (m : Module) : String → List String
  | "path" => m.paths
  | "depends" => m.dependsOn
  | "readonly" => if m.flags.readOnly then ["true"] else []
  | "ownersonly" => if m.flags.ownersOnly then ["true"] else []
  | "role" => if m.flags.infrastructure then ["infrastructure"] else []
  | _ => []

/-- A section about a module with the given values for each key. -/
def sectionWith (n : String) (values : String → List String) : Section where
  name := "module"
  label := some n
  entries := knownKeys.flatMap fun key => (values key).map (⟨key, some ·⟩)

def sectionOf (m : Module) : Section := sectionWith m.name (valuesOf m)

theorem sameAscii_knownKeys :
    ∀ a ∈ knownKeys, ∀ b ∈ knownKeys, Text.sameAscii a b = (a == b) := by
  simp only [Text.sameAscii_eq]
  decide +kernel

variable {m : Module} {key : String} {values : String → List String}

theorem moduleName?_sectionWith (n : String) (values : String → List String) :
    (sectionWith n values).moduleName? = some n := by
  simp [sectionWith, Section.moduleName?, Text.sameAscii]

theorem filter_entries (h : key ∈ knownKeys) {keys : List String} (hk : keys ⊆ knownKeys) :
    (keys.flatMap fun k => (values k).map fun v => (⟨k, some v⟩ : Entry)).filter
      (Text.sameAscii ·.key key) =
    (keys.filter (· == key)).flatMap fun k => (values k).map (⟨k, some ·⟩) := by
  induction keys with
  | nil => rfl
  | cons k keys ih =>
    obtain ⟨hk, hkeys⟩ := List.cons_subset.1 hk
    have hs := sameAscii_knownKeys k hk key h
    rw [List.flatMap_cons, List.filter_append, ih hkeys, List.filter_map]
    by_cases he : k = key
    · subst he
      have hself : Text.sameAscii k k = true := by simpa using hs
      simp [Function.comp_def, hself]
    · simp [Function.comp_def, hs, he]

theorem entriesOf_sectionWith (n : String) (h : key ∈ knownKeys) :
    (sectionWith n values).entriesOf key = (values key).map (⟨key, some ·⟩) := by
  rw [Section.entriesOf, sectionWith, filter_entries h (List.Subset.refl _)]
  have hone : knownKeys.filter (· == key) = [key] := by
    simp only [knownKeys, List.mem_cons, List.not_mem_nil, or_false] at h
    rcases h with rfl | rfl | rfl | rfl | rfl <;> rfl
  rw [hone, List.flatMap_singleton]

theorem values_sectionWith (n : String) (h : key ∈ knownKeys) :
    (sectionWith n values).values key = values key := by
  simp [Section.values, entriesOf_sectionWith n h, Function.comp_def]

theorem paths_sectionWith (n : String) (h : ∀ p ∈ values "path", Path.normalize p = some p) :
    (sectionWith n values).paths = values "path" := by
  rw [Section.paths, values_sectionWith n (by simp [knownKeys])]
  exact (List.filterMap_congr h).trans List.filterMap_some

theorem depends_sectionWith (n : String)
    (h : ∀ x ∈ values "depends", Text.trim x = x ∧ x ≠ "") :
    (sectionWith n values).depends = values "depends" := by
  rw [Section.depends, values_sectionWith n (by simp [knownKeys])]
  have htrim : (values "depends").map Text.trim = values "depends" :=
    (List.map_congr_left fun x hx => (h x hx).1).trans (List.map_id _)
  rw [htrim]
  exact List.filter_eq_self.2 fun x hx => by simpa using (h x hx).2

theorem moduleName?_sectionOf (m : Module) : (sectionOf m).moduleName? = some m.name :=
  moduleName?_sectionWith m.name (valuesOf m)

theorem isSet_true (key : String) : Section.Entry.isSet ⟨key, some "true"⟩ = true := by
  have h : Section.truth? "true" = some true := by decide +kernel
  simp [Section.Entry.isSet, h]

theorem flagsAfter_sectionOf (m : Module) : Section.flagsAfter {} (sectionOf m) = m.flags := by
  have hentries : ∀ key ∈ knownKeys,
      (sectionOf m).entriesOf key = (valuesOf m key).map (⟨key, some ·⟩) :=
    fun _ hkey => entriesOf_sectionWith m.name hkey
  have hrole : Text.sameAscii (Text.trim "infrastructure") "infrastructure" = true := by
    decide +kernel
  simp only [Section.flagsAfter, Section.flagAfter, Section.infrastructureAfter, Section.last?,
    hentries "readonly" (by simp [knownKeys]), hentries "ownersonly" (by simp [knownKeys]),
    hentries "role" (by simp [knownKeys]), valuesOf]
  generalize m.flags = f
  obtain ⟨r, o, i⟩ := f
  cases r <;> cases o <;> cases i <;> simp [isSet_true, hrole]

/-! ### Catalogs made of modules -/

def ofModules (ms : List Module) : Definitions := ⟨"<inline>", ms.map sectionOf⟩

/-- The module is what a section of its own can say, and it has no dependencies to inherit. -/
structure Declarable (m : Module) : Prop where
  paths_ne_nil : m.paths ≠ []
  normal : ∀ p ∈ m.paths, Path.normalize p = some p
  trimmed : ∀ x ∈ m.dependsOn, Text.trim x = x ∧ x ≠ ""
  own : m.inheritedDepends = false
  independent : m.dependsOn ≠ [] ∨ m.parent? = none

theorem moduleOf_sectionOf (h : Declarable m) : moduleOf m.name (sectionOf m) = m := by
  have hpaths : (sectionOf m).paths = m.paths := paths_sectionWith m.name h.normal
  have hdepends : (sectionOf m).depends = m.dependsOn := depends_sectionWith m.name h.trimmed
  rw [moduleOf, hpaths, hdepends, flagsAfter_sectionOf, ← h.own]

theorem load_ofModules {ms : List Module} (hd : (ms.map Module.name).Nodup) (hm : m ∈ ms)
    (h : Declarable m) : (ofModules ms).load m.name = some m := by
  have hnames : (ofModules ms).sections.filterMap Section.moduleName? = ms.map Module.name := by
    simp [ofModules, moduleName?_sectionOf]
  have hone := sectionsOf_eq_singleton (hnames ▸ hd) (List.mem_map_of_mem hm)
    (moduleName?_sectionOf m)
  have hpaths : (sectionOf m).paths = m.paths := paths_sectionWith m.name h.normal
  have ho := own?_of_sectionsOf_eq_singleton hone (hpaths ▸ h.paths_ne_nil)
  rw [moduleOf_sectionOf h] at ho
  exact load_of_own? ho h.independent

end ModuleGraph.Definitions
