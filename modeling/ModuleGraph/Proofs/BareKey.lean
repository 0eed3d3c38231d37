import ModuleGraph.Proofs.KeyLayout
import ModuleGraph.Proofs.LastEntry

/-!
# Flags written without a value

A flag whose last key stands without `=` is set if the line, the section or the text ends behind the
key, or a comment begins there. A blank or a tab behind the key gives it the empty value, which
clears the flag, whatever follows the blank.
-/

namespace ModuleGraph.Definitions

variable {d : Definitions} {source text n key : String} {m : Module}

/-- Where the last entry for a key stands among all sections of a module. -/
def lastKeyAt? (text n key : String) : Option KeyAt :=
  ((((layout text).filter (·.toSection.moduleName? = some n)).flatMap SectionAt.keys).filter
    (Text.sameAscii ·.key key)).getLast?

theorem entriesAbout_eq (h : parse source text = .ok d) (n : String) :
    d.entriesAbout n = (((layout text).filter (·.toSection.moduleName? = some n)).flatMap
      SectionAt.keys).map KeyAt.entry := by
  rw [entriesAbout, sectionsOf, sections_eq_layout h, List.filter_map, List.flatMap_map,
    List.map_flatMap]
  rfl

theorem lastOf?_of_parse (h : parse source text = .ok d) (n key : String) :
    d.lastOf? n key = (lastKeyAt? text n key).map KeyAt.entry := by
  rw [lastOf?, entriesAbout_eq h, List.filter_map, List.getLast?_map]
  rfl

theorem mem_layout_of_lastKeyAt? {k : KeyAt} (h : k ∈ lastKeyAt? text n key) :
    ∃ b ∈ layout text, k ∈ b.keys := by
  have hmem := List.mem_of_mem_filter (List.mem_of_getLast? h)
  obtain ⟨b, hb, hk⟩ := List.mem_flatMap.1 hmem
  exact ⟨b, List.mem_of_mem_filter hb, hk⟩

/-- The empty value is no word for truth. -/
theorem saysYes_entry_iff {k : KeyAt} (h : k.IsBare) : k.entry.SaysYes ↔ ¬ k.IsSpaced := by
  have hempty : ¬ Text.lowerAscii (Text.trim "") ∈ ["true", "yes", "on", "1"] := by
    decide +kernel
  rw [Entry.SaysYes, KeyAt.value_of_bare h]
  by_cases hspaced : k.IsSpaced
  · simpa [hspaced] using hempty
  · simp [hspaced]

/-- The last entry for each key is read at the last place where the key stands in the text. A flag
that stands there without `=` is set if and only if no blank follows the key; then the line, the
section or the text ends there, or a comment begins. -/
theorem bare_key_sets_flag_iff (hp : parse source text = .ok d) (hl : d.load n = some m) :
    (∀ key, d.lastOf? n key = (lastKeyAt? text n key).map KeyAt.entry) ∧
    (∀ key, ∀ k ∈ lastKeyAt? text n key, k.key.toList ++ k.after <:+ text.toList ∧
      (k.IsBare → k.IsSpaced ∨ EndsKey k.after)) ∧
    (∀ k ∈ lastKeyAt? text n "readonly", k.IsBare →
      (m.flags.readOnly = true ↔ ¬ k.IsSpaced)) ∧
    ∀ k ∈ lastKeyAt? text n "ownersonly", k.IsBare →
      (m.flags.ownersOnly = true ↔ ¬ k.IsSpaced) := by
  have hflags := (paths_and_flags_of_load hl).2
  have hset : ∀ key, ∀ k ∈ lastKeyAt? text n key, k.IsBare →
      (((d.lastOf? n key).map Section.Entry.isSet).getD false = true ↔ ¬ k.IsSpaced) := by
    intro key k hk hbare
    rw [getD_map_isSet_iff, lastOf?_of_parse hp, hk]
    simpa using saysYes_entry_iff hbare
  refine ⟨lastOf?_of_parse hp n, fun key k hk => ?_, ?_, ?_⟩
  · obtain ⟨b, hb, hkeys⟩ := mem_layout_of_lastKeyAt? hk
    exact keys_of_layout hp hb hkeys
  · rw [hflags, ownFlags_eq]
    exact hset "readonly"
  · rw [hflags, ownFlags_eq]
    exact hset "ownersonly"

/-! ### Comments behind flags -/

/-- A comment follows both flags, the second one behind a blank. -/
def commented : String :=
  "[module \"core\"]\n\tpath = lib/core\n\treadonly; generated\n\townersonly # soon\n"

def commentedCore : Definitions :=
  ⟨"<inline>", [⟨"module", some "core",
    [⟨"path", some "lib/core"⟩, ⟨"readonly", none⟩, ⟨"ownersonly", some ""⟩]⟩]⟩

def readonlyKey : KeyAt := ⟨"readonly", "; generated\n\townersonly # soon\n".toList⟩

def ownersonlyKey : KeyAt := ⟨"ownersonly", " # soon\n".toList⟩

theorem commented_sets_first_flag :
    ∃ m, parse "<inline>" commented = .ok commentedCore ∧ commentedCore.load "core" = some m ∧
      readonlyKey ∈ lastKeyAt? commented "core" "readonly" ∧ readonlyKey.IsBare ∧
      EndsKey readonlyKey.after ∧ m.flags.readOnly = true ∧
      ownersonlyKey ∈ lastKeyAt? commented "core" "ownersonly" ∧ ownersonlyKey.IsBare ∧
      ownersonlyKey.IsSpaced ∧ m.flags.ownersOnly = false := by
  have hp : parse "<inline>" commented = .ok commentedCore := by decide +kernel
  have hk : readonlyKey ∈ lastKeyAt? commented "core" "readonly" := by decide +kernel
  have hk' : ownersonlyKey ∈ lastKeyAt? commented "core" "ownersonly" := by decide +kernel
  have hclose : readonlyKey.IsBare ∧ ¬ readonlyKey.IsSpaced := by decide +kernel
  have hspaced : ownersonlyKey.IsBare ∧ ownersonlyKey.IsSpaced := by decide +kernel
  obtain ⟨m, hl⟩ :=
    Option.isSome_iff_exists.1 (by decide +kernel : (commentedCore.load "core").isSome)
  obtain ⟨-, hkeys, hreadOnly, hownersOnly⟩ := bare_key_sets_flag_iff hp hl
  have hends : EndsKey readonlyKey.after :=
    ((hkeys "readonly" _ hk).2 hclose.1).resolve_left hclose.2
  have hset : m.flags.readOnly = true := (hreadOnly _ hk hclose.1).2 hclose.2
  have hclear : m.flags.ownersOnly = false :=
    Bool.eq_false_iff.2 fun h => (hownersOnly _ hk' hspaced.1).1 h hspaced.2
  exact ⟨m, hp, hl, hk, hclose.1, hends, hset, hk', hspaced.1, hspaced.2, hclear⟩

/-- The only flag of `core` is written without `=`, with a comment behind it. -/
def spacedFlag : String := "[module \"core\"]\n\tpath = lib/core\n\treadonly # generated\n"

theorem spaced_flag_is_clear :
    ∃ d m k, parse "<inline>" spacedFlag = .ok d ∧ d.load "core" = some m ∧
      k ∈ lastKeyAt? spacedFlag "core" "readonly" ∧ k.IsBare ∧ m.flags.readOnly = false := by
  refine ⟨⟨"<inline>", [⟨"module", some "core", [⟨"path", some "lib/core"⟩, ⟨"readonly", some ""⟩]⟩]⟩,
    { name := "core", paths := ["lib/core"] }, ⟨"readonly", " # generated\n".toList⟩, ?_, ?_, ?_, ?_,
    rfl⟩
  all_goals decide +kernel

end ModuleGraph.Definitions
