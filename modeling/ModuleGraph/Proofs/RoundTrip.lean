import ModuleGraph.Proofs.WrittenText
import Mathlib.Tactic.MkIffOfInductiveProp

/-!
# Modules written out and read back

A text with one section for each module, in which every flag and role has an explicit value, names
these modules in their order and loads each of them as it was written.
-/

namespace ModuleGraph.Definitions

variable {m : Module} {ms : List Module} {n key v : String} {d : Definitions}

/-! ### Lines of a module -/

def flagWord (set : Bool) : String := if set then "true" else "false"

def roleWord (infrastructure : Bool) : String := if infrastructure then "infrastructure" else "none"

/-- The values that are written for a key; flags and the role always have one. -/
def writtenValues (m : Module) : String → List String
  | "path" => m.paths
  | "depends" => m.dependsOn
  | "readonly" => [flagWord m.flags.readOnly]
  | "ownersonly" => [flagWord m.flags.ownersOnly]
  | "role" => [roleWord m.flags.infrastructure]
  | _ => []

def writtenLines (m : Module) : List Line :=
  knownKeys.flatMap fun key => (writtenValues m key).map (⟨key, ·⟩)

def blockOf (m : Module) : Block := ⟨m.name, writtenLines m⟩

def write (ms : List Module) : String :=
  String.ofList ((ms.map blockOf).flatMap Block.write)

example : write [{ name := "a\"b", paths := ["src/a"], dependsOn := ["c"] }] =
    "[module \"a\\\"b\"]\n\tpath = \"src/a\"\n\tdepends = \"c\"\n\treadonly = false\n" ++
      "\townersonly = false\n\trole = none\n" := by
  decide +kernel

/-- A control character: one of the first 32, `DEL`, or one of the 32 after it. -/
def isControl (c : Char) : Bool := c.toNat < 0x20 || (0x7f ≤ c.toNat && c.toNat ≤ 0x9f)

/-- The module can be written out. -/
@[mk_iff] structure Writable (m : Module) : Prop where
  named : m.name ≠ ""
  label : ∀ c ∈ m.name.toList, c ≠ '\n' ∧ c ≠ '\x00'
  paths_ne_nil : m.paths ≠ []
  normal : ∀ p ∈ m.paths, Path.normalize p = some p
  trimmed : ∀ x ∈ m.dependsOn, Text.trim x = x ∧ x ≠ ""
  printable : ∀ x ∈ m.paths ++ m.dependsOn, ∀ c ∈ x.toList, isControl c = false

instance (m : Module) : Decidable (Writable m) :=
  decidable_of_iff
    (m.name ≠ "" ∧ m.name.toList.all (fun c => c ≠ '\n' ∧ c ≠ '\x00') ∧ m.paths ≠ [] ∧
      (∀ p ∈ m.paths, Path.normalize p = some p) ∧
      (∀ x ∈ m.dependsOn, Text.trim x = x ∧ x ≠ "") ∧
      ∀ x ∈ m.paths ++ m.dependsOn, x.toList.all (!isControl ·)) <| by
    simp only [writable_iff, List.all_eq_true, decide_eq_true_eq, Bool.not_eq_true']

theorem mem_writtenLines {l : Line} :
    l ∈ writtenLines m ↔ l.key ∈ knownKeys ∧ l.value ∈ writtenValues m l.key := by
  simp only [writtenLines, List.mem_flatMap, List.mem_map]
  constructor
  · rintro ⟨key, hkey, v, hv, rfl⟩
    exact ⟨hkey, hv⟩
  · rintro ⟨hkey, hv⟩
    exact ⟨l.key, hkey, l.value, hv, rfl⟩

/-- What is written without quotes is one of four words. -/
theorem word_of_mem_writtenValues (hkey : ¬(key = "path" ∨ key = "depends"))
    (h : v ∈ writtenValues m key) : v ∈ ["true", "false", "infrastructure", "none"] := by
  obtain ⟨hpath, hdepends⟩ := not_or.1 hkey
  unfold writtenValues at h
  split at h
  · exact absurd rfl hpath
  · exact absurd rfl hdepends
  · rw [List.mem_singleton.1 h, flagWord]
    split <;> simp
  · rw [List.mem_singleton.1 h, flagWord]
    split <;> simp
  · rw [List.mem_singleton.1 h, roleWord]
    split <;> simp
  · cases h

theorem isAlpha_of_word {w : String} (h : w ∈ ["true", "false", "infrastructure", "none"]) :
    w ≠ "" ∧ ∀ c ∈ w.toList, c.isAlpha = true := by
  have hwords : ∀ w ∈ ["true", "false", "infrastructure", "none"],
      w ≠ "" ∧ w.toList.all Char.isAlpha = true := by
    decide +kernel
  obtain ⟨hne, hall⟩ := hwords w h
  exact ⟨hne, List.all_eq_true.1 hall⟩

theorem newline_notMem_of_printable {x : String} (h : ∀ c ∈ x.toList, isControl c = false) :
    '\n' ∉ x.toList := by
  intro hmem
  cases h '\n' hmem

theorem wellFormed_blockOf (h : Writable m) : (blockOf m).WellFormed := by
  refine ⟨h.label, fun l hl => ?_⟩
  obtain ⟨hknown, hv⟩ := mem_writtenLines.1 hl
  refine ⟨hknown, ?_, fun hkey => isAlpha_of_word (word_of_mem_writtenValues hkey hv)⟩
  by_cases hkey : l.key = "path" ∨ l.key = "depends"
  · refine newline_notMem_of_printable (h.printable _ ?_)
    rcases hkey with hkey | hkey <;> rw [hkey] at hv
    · exact List.mem_append_left _ hv
    · exact List.mem_append_right _ hv
  · have hword := (isAlpha_of_word (word_of_mem_writtenValues hkey hv)).2
    intro hmem
    cases hword '\n' hmem

/-! ### The section that is read -/

theorem toSection_blockOf (m : Module) :
    (blockOf m).toSection = sectionWith m.name (writtenValues m) := by
  simp [blockOf, Block.toSection, sectionWith, writtenLines, List.map_flatMap, Line.entry,
    Function.comp_def]

theorem parse_write_eq (source : String) (h : ∀ m ∈ ms, Writable m) :
    parse source (write ms) =
      .ok ⟨source, ms.map fun m => sectionWith m.name (writtenValues m)⟩ := by
  have hblocks : ∀ b ∈ ms.map blockOf, b.WellFormed := by
    intro b hb
    obtain ⟨m, hm, rfl⟩ := List.mem_map.1 hb
    exact wellFormed_blockOf (h m hm)
  rw [write, parse_written source hblocks, List.map_map]
  simp only [Function.comp_def, toSection_blockOf]

theorem truth?_flagWord (set : Bool) : Section.truth? (flagWord set) = some set := by
  cases set <;> decide +kernel

theorem sameAscii_roleWord (infrastructure : Bool) :
    Text.sameAscii (Text.trim (roleWord infrastructure)) "infrastructure" = infrastructure := by
  cases infrastructure <;> decide +kernel

theorem flagsAfter_written (m : Module) (before : Flags) :
    Section.flagsAfter before (sectionWith m.name (writtenValues m)) = m.flags := by
  have hro : (sectionWith m.name (writtenValues m)).entriesOf "readonly" = _ :=
    entriesOf_sectionWith m.name (by simp [knownKeys])
  have how : (sectionWith m.name (writtenValues m)).entriesOf "ownersonly" = _ :=
    entriesOf_sectionWith m.name (by simp [knownKeys])
  have hin : (sectionWith m.name (writtenValues m)).entriesOf "role" = _ :=
    entriesOf_sectionWith m.name (by simp [knownKeys])
  simp [Section.flagsAfter, Section.flagAfter, Section.infrastructureAfter, Section.last?, hro, how,
    hin, writtenValues, Section.Entry.isSet, truth?_flagWord, sameAscii_roleWord]

/-! ### Names and modules that are read -/

theorem paths_written (h : Writable m) :
    (sectionWith m.name (writtenValues m)).paths = m.paths := paths_sectionWith m.name h.normal

theorem depends_written (h : Writable m) :
    (sectionWith m.name (writtenValues m)).depends = m.dependsOn :=
  depends_sectionWith m.name h.trimmed

theorem declared?_written (h : Writable m) :
    (sectionWith m.name (writtenValues m)).declared? = some m.name := by
  refine declared?_eq_some_iff.2 ⟨?_, moduleName?_sectionWith m.name _⟩
  rw [paths_written h]
  exact h.paths_ne_nil

/-- A module with one section has the paths and the flags that are said there, and no dependencies
but those, if there are any. -/
theorem load_of_sectionsOf_eq_singleton {s : Section} (h : d.sectionsOf n = [s])
    (hp : s.paths ≠ []) : ∃ m, d.load n = some m ∧ m.name = n ∧ m.paths = s.paths ∧
      m.flags = Section.flagsAfter {} s ∧ (s.depends ≠ [] → m = moduleOf n s) := by
  have hown := own?_of_sectionsOf_eq_singleton h hp
  have hsome : (d.load n).isSome := by
    rw [load_isSome, hown]
    rfl
  obtain ⟨m, hm⟩ := Option.isSome_iff_exists.1 hsome
  obtain ⟨hpaths, hflags⟩ := paths_and_flags_of_load hm
  refine ⟨m, hm, name_of_load hm, ?_, ?_, fun hd => ?_⟩
  · simpa [ownPaths, h] using hpaths
  · simpa [ownFlags, h] using hflags
  · have hload := load_of_own? hown (.inl hd)
    exact Option.some.inj (hm.symm.trans hload)

/-- Writing modules out and reading the text back gives their names in order, and each module with
its paths, its flags and, if it names any dependency, its own dependencies. -/
theorem parse_write (source : String) (hd : (ms.map Module.name).Nodup)
    (hw : ∀ m ∈ ms, Writable m) :
    ∃ d, parse source (write ms) = .ok d ∧ d.names = ms.map Module.name ∧
      ∀ m ∈ ms, ∃ m', d.load m.name = some m' ∧ m'.name = m.name ∧ m'.paths = m.paths ∧
        m'.flags = m.flags ∧
        (m.dependsOn ≠ [] → m'.dependsOn = m.dependsOn ∧ m'.inheritedDepends = false) := by
  refine ⟨_, parse_write_eq source hw, ?_, ?_⟩
  · have hdeclared : (ms.map fun m => sectionWith m.name (writtenValues m)).filterMap
        Section.declared? = ms.map Module.name := by
      rw [List.filterMap_map]
      exact (List.filterMap_congr fun m hm => declared?_written (hw m hm)).trans
        (congrFun List.filterMap_eq_map' ms)
    rw [names, hdeclared, firsts_of_nodup hd]
  · intro m hm
    have hnames : (ms.map fun m => sectionWith m.name (writtenValues m)).filterMap
        Section.moduleName? = ms.map Module.name := by
      simp [moduleName?_sectionWith]
    have hpaths := paths_written (hw m hm)
    have hdepends := depends_written (hw m hm)
    have hone := sectionsOf_eq_singleton (d := ⟨source, _⟩) (hnames ▸ hd)
      (List.mem_map_of_mem hm) (moduleName?_sectionWith m.name _)
    obtain ⟨m', hload, hname, hp, hf, hdep⟩ := load_of_sectionsOf_eq_singleton hone
      (hpaths ▸ (hw m hm).paths_ne_nil)
    refine ⟨m', hload, hname, hp.trans hpaths, hf.trans (flagsAfter_written m {}), fun hne => ?_⟩
    rw [hdep (hdepends ▸ hne)]
    exact ⟨hdepends, rfl⟩

/-- Two modules with quotes, backslashes, brackets, comment signs and blanks in their names and
paths; the second one lies in the first. -/
def markedModules : List Module :=
  [{ name := "ui \"new\"]", paths := ["src/ü #1", "lib\\core;x"], dependsOn := ["a = b", "päck\\"]
     flags := ⟨true, false, true⟩ },
   { name := "ui \"new\"]/\t\\", paths := ["[docs]"], flags := ⟨false, true, false⟩ }]

theorem markedModules_read_back :
    (markedModules.map Module.name).Nodup ∧ (∀ m ∈ markedModules, Writable m) ∧
      ∃ d, parse "modules" (write markedModules) = .ok d ∧
        d.names = markedModules.map Module.name ∧
        ∀ m ∈ markedModules, ∃ m', d.load m.name = some m' ∧ m'.name = m.name ∧
          m'.paths = m.paths ∧ m'.flags = m.flags ∧
          (m.dependsOn ≠ [] → m'.dependsOn = m.dependsOn ∧ m'.inheritedDepends = false) := by
  have hnames : (markedModules.map Module.name).Nodup := by decide +kernel
  have hwritable : ∀ m ∈ markedModules, Writable m := by decide +kernel
  exact ⟨hnames, hwritable, parse_write "modules" hnames hwritable⟩

end ModuleGraph.Definitions
