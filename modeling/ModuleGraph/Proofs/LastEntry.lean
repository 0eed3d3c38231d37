import ModuleGraph.Proofs.Lookup

/-!
# Flags and the last entry

The sections of a module are gone through in order, and each one that has an entry for a flag sets
it anew. So the last entry among all of them decides, however they are split. A section whose last
`role` stands alone leaves the mark of infrastructure as it was: the mark is that of the last
section whose last `role` has a value.
-/

namespace ModuleGraph.Definitions

variable {d d' : Definitions} {n : String} {m : Module}

/-- The entries of all sections of a module, in the order of the text. -/
def entriesAbout (d : Definitions) (n : String) : List Entry :=
  (d.sectionsOf n).flatMap Section.entries

/-- The last entry for a key among all sections of a module. -/
def lastOf? (d : Definitions) (n key : String) : Option Entry :=
  ((d.entriesAbout n).filter (Text.sameAscii ·.key key)).getLast?

/-- The entry stands alone or has a word for truth. -/
def Entry.SaysYes (e : Entry) : Prop :=
  e.value = none ∨ ∃ v ∈ e.value, Text.lowerAscii (Text.trim v) ∈ ["true", "yes", "on", "1"]

instance (e : Entry) : Decidable e.SaysYes := inferInstanceAs (Decidable (_ ∨ ∃ v ∈ e.value, _))

theorem isSet_iff {e : Entry} : Section.Entry.isSet e = true ↔ e.SaysYes := by
  unfold Section.Entry.isSet Entry.SaysYes
  cases e.value with
  | none => simp
  | some v =>
    simp only [reduceCtorEq, false_or, Option.mem_some_iff, exists_eq_left', Section.truth?]
    split
    · simp [*]
    · rename_i hyes
      refine iff_of_false ?_ hyes
      split <;> simp

/-- The value of the last `role` in the last section where that has one. -/
def roleWord? (d : Definitions) (n : String) : Option String :=
  (d.sectionsOf n).reverse.findSome? fun s => (s.last? "role").bind (·.value)

/-- The value is the word for the role of infrastructure. -/
def MarksInfrastructure (v : String) : Prop :=
  Text.sameAscii (Text.trim v) "infrastructure" = true

/-! ### Sections one after the other -/

/-- What each section sets anew is as the last one says that sets it. -/
theorem foldl_getD {α β : Type} (f : α → Option β) (xs : List α) (b : β) :
    xs.foldl (fun b x => (f x).getD b) b = (xs.reverse.findSome? f).getD b := by
  induction xs generalizing b with
  | nil => rfl
  | cons x xs ih =>
    rw [List.foldl_cons, ih, List.reverse_cons, List.findSome?_append, List.findSome?_singleton]
    cases xs.reverse.findSome? f with
    | none => rfl
    | some c => rfl

theorem lastOf?_eq (d : Definitions) (n key : String) :
    d.lastOf? n key = (d.sectionsOf n).reverse.findSome? (·.last? key) := by
  rw [lastOf?, entriesAbout, List.filter_flatMap, List.getLast?_flatMap]
  rfl

theorem foldl_flagAfter (d : Definitions) (n key : String) (before : Bool) :
    (d.sectionsOf n).foldl (fun b s => s.flagAfter key b) before =
      ((d.lastOf? n key).map Section.Entry.isSet).getD before := by
  rw [lastOf?_eq, List.map_findSome?]
  exact foldl_getD (fun s : Section => (s.last? key).map Section.Entry.isSet) _ before

theorem foldl_infrastructureAfter (d : Definitions) (n : String) (before : Bool) :
    (d.sectionsOf n).foldl (fun b s => s.infrastructureAfter b) before =
      ((d.roleWord? n).map fun v => Text.sameAscii (Text.trim v) "infrastructure").getD before := by
  have hstep : (fun b (s : Section) => s.infrastructureAfter b) = fun b s =>
      (((s.last? "role").bind (·.value)).map fun v =>
        Text.sameAscii (Text.trim v) "infrastructure").getD b := by
    funext b s
    unfold Section.infrastructureAfter
    cases (s.last? "role").bind (·.value) with
    | none => rfl
    | some v => rfl
  rw [hstep, foldl_getD, roleWord?, List.map_findSome?]
  rfl

theorem foldl_flagsAfter (ss : List Section) (f : Flags) :
    ss.foldl Section.flagsAfter f =
      ⟨ss.foldl (fun b s => s.flagAfter "readonly" b) f.readOnly,
        ss.foldl (fun b s => s.flagAfter "ownersonly" b) f.ownersOnly,
        ss.foldl (fun b s => s.infrastructureAfter b) f.infrastructure⟩ := by
  induction ss generalizing f with
  | nil => rfl
  | cons s ss ih => exact ih (Section.flagsAfter f s)

/-! ### The flags of a module -/

theorem ownFlags_eq (d : Definitions) (n : String) :
    d.ownFlags n =
      ⟨((d.lastOf? n "readonly").map Section.Entry.isSet).getD false,
        ((d.lastOf? n "ownersonly").map Section.Entry.isSet).getD false,
        ((d.roleWord? n).map fun v =>
          Text.sameAscii (Text.trim v) "infrastructure").getD false⟩ := by
  rw [ownFlags, foldl_flagsAfter, foldl_flagAfter, foldl_flagAfter, foldl_infrastructureAfter]

theorem getD_map_isSet_iff {e? : Option Entry} :
    (e?.map Section.Entry.isSet).getD false = true ↔ ∃ e ∈ e?, e.SaysYes := by
  cases e? <;> simp [isSet_iff]

/-- Unless the last `role` stands alone, it gives the role word. -/
theorem roleWord?_eq (h : ∀ e ∈ d.lastOf? n "role", e.value ≠ none) :
    d.roleWord? n = (d.lastOf? n "role").bind (·.value) := by
  rw [lastOf?_eq] at h ⊢
  unfold roleWord?
  -- From the last section back to the first one that has a `role`.
  generalize (d.sectionsOf n).reverse = ss at h ⊢
  induction ss with
  | nil => rfl
  | cons s ss ih =>
    cases hs : s.last? "role" with
    | none =>
      simp only [List.findSome?_cons, hs] at h ⊢
      exact ih h
    | some e =>
      simp only [List.findSome?_cons, hs] at h ⊢
      obtain ⟨v, hv⟩ := Option.ne_none_iff_exists'.1 (h e rfl)
      simp [hv]

/-- In a single section the last `role` gives the role word, or there is none. -/
theorem roleWord?_of_single {s : Section} (h : d.sectionsOf n = [s]) :
    d.roleWord? n = (d.lastOf? n "role").bind (·.value) := by
  rw [lastOf?_eq, roleWord?, h]
  simp

theorem ownPaths_eq (d : Definitions) (n : String) :
    d.ownPaths n = (((d.entriesAbout n).filter (Text.sameAscii ·.key "path")).map
      (·.value.getD "")).filterMap Path.normalize := by
  simp only [ownPaths, entriesAbout, List.filter_flatMap, List.map_flatMap, List.filterMap_flatMap]
  rfl

theorem flags_of_sameEntries (hl : d.load n = some m)
    (h : d'.entriesAbout n = d.entriesAbout n) :
    ∃ m', d'.load n = some m' ∧ m'.flags = d'.ownFlags n := by
  have hsome : (d'.load n).isSome := by
    rw [load_isSome, own?_isSome_iff, ownPaths_eq, h, ← ownPaths_eq, ← own?_isSome_iff,
      ← load_isSome, hl]
    rfl
  obtain ⟨m', hl'⟩ := Option.isSome_iff_exists.1 hsome
  exact ⟨m', hl', (paths_and_flags_of_load hl').2⟩

/-- The last entry for a flag decides, and the role word for the mark of infrastructure; that is
the last `role` unless this stands alone behind another section. With the same entries in other
sections a module loads again, with the same flags, and with the same mark unless its last `role`
stands alone. -/
theorem last_entries_decide_flags (hl : d.load n = some m) :
    (m.flags.readOnly = true ↔ ∃ e ∈ d.lastOf? n "readonly", e.SaysYes) ∧
    (m.flags.ownersOnly = true ↔ ∃ e ∈ d.lastOf? n "ownersonly", e.SaysYes) ∧
    (m.flags.infrastructure = true ↔ ∃ v ∈ d.roleWord? n, MarksInfrastructure v) ∧
    ((∀ e ∈ d.lastOf? n "role", e.value ≠ none) ∨ (∃ s, d.sectionsOf n = [s]) →
      (m.flags.infrastructure = true ↔
        ∃ e ∈ d.lastOf? n "role", ∃ v ∈ e.value, MarksInfrastructure v)) ∧
    ∀ d' : Definitions, d'.entriesAbout n = d.entriesAbout n →
      ∃ m', d'.load n = some m' ∧ m'.flags.readOnly = m.flags.readOnly ∧
        m'.flags.ownersOnly = m.flags.ownersOnly ∧
        ((∀ e ∈ d.lastOf? n "role", e.value ≠ none) →
          m'.flags.infrastructure = m.flags.infrastructure) := by
  have hflags := (paths_and_flags_of_load hl).2
  rw [hflags, ownFlags_eq]
  have hrole : ∀ w? : Option String,
      (w?.map fun v => Text.sameAscii (Text.trim v) "infrastructure").getD false = true ↔
        ∃ v ∈ w?, MarksInfrastructure v := by
    intro w?
    cases w? <;> simp [MarksInfrastructure]
  refine ⟨getD_map_isSet_iff, getD_map_isSet_iff, hrole _, fun h => ?_, fun d' h => ?_⟩
  · have hword : d.roleWord? n = (d.lastOf? n "role").bind (·.value) := by
      rcases h with h | ⟨s, h⟩
      · exact roleWord?_eq h
      · exact roleWord?_of_single h
    rw [hrole, hword]
    cases d.lastOf? n "role" <;> simp
  · obtain ⟨m', hl', hflags'⟩ := flags_of_sameEntries hl h
    have hlast : ∀ key, d'.lastOf? n key = d.lastOf? n key := by
      intro key
      rw [lastOf?, h, lastOf?]
    refine ⟨m', hl', ?_, ?_, fun hr => ?_⟩
    · simp only [hflags', ownFlags_eq, hlast]
    · simp only [hflags', ownFlags_eq, hlast]
    · simp only [hflags', ownFlags_eq, roleWord?_eq hr, roleWord?_eq (hlast "role" ▸ hr), hlast]

/-! ### Sections gathered into one -/

def ciSections : List Section :=
  [⟨"module", some "ci", [⟨"path", some ".github"⟩, ⟨"readonly", none⟩, ⟨"role", some "tools"⟩]⟩,
    ⟨"module", some "app", [⟨"path", some "src"⟩, ⟨"readonly", some "yes"⟩]⟩,
    ⟨"module", some "ci",
      [⟨"readonly", some "off"⟩, ⟨"ownersonly", none⟩, ⟨"role", some " Infrastructure "⟩]⟩]

/-- `ci` is described in two sections. -/
def parted : Definitions := ⟨"<inline>", ciSections⟩

/-- `ci` is described in one section, with the entries of the two. -/
def gathered : Definitions :=
  ⟨"<inline>", [⟨"module", some "ci", parted.entriesAbout "ci"⟩]⟩

theorem parted_follows_last_entries :
    ∃ m m', parted.load "ci" = some m ∧ gathered.load "ci" = some m' ∧
      (parted.sectionsOf "ci").length = 2 ∧ gathered.entriesAbout "ci" = parted.entriesAbout "ci" ∧
      (∀ e ∈ parted.lastOf? "ci" "role", e.value ≠ none) ∧
      m.flags.readOnly = false ∧ m.flags.ownersOnly = true ∧ m.flags.infrastructure = true ∧
      m'.flags.readOnly = false ∧ m'.flags.ownersOnly = true ∧ m'.flags.infrastructure = true := by
  have hsame : gathered.entriesAbout "ci" = parted.entriesAbout "ci" := by decide +kernel
  have hrole : parted.lastOf? "ci" "role" = some ⟨"role", some " Infrastructure "⟩ := by
    decide +kernel
  have hvalue : ∀ e ∈ parted.lastOf? "ci" "role", e.value ≠ none := by simp [hrole]
  have hmarks : MarksInfrastructure " Infrastructure " := by
    rw [MarksInfrastructure, Text.sameAscii_eq]
    decide +kernel
  obtain ⟨m, hl⟩ := Option.isSome_iff_exists.1 (by decide +kernel : (parted.load "ci").isSome)
  obtain ⟨hro, how, -, hin, hgather⟩ := last_entries_decide_flags hl
  obtain ⟨m', hl', hro', how', hin'⟩ := hgather gathered hsame
  have hreadOnly : m.flags.readOnly = false := Bool.eq_false_iff.2 (hro.not.2 (by decide +kernel))
  have hownersOnly : m.flags.ownersOnly = true := how.2 (by decide +kernel)
  have hinfrastructure : m.flags.infrastructure = true :=
    (hin (.inl hvalue)).2 ⟨_, hrole, _, rfl, hmarks⟩
  exact ⟨m, m', hl, hl', by decide +kernel, hsame, hvalue, hreadOnly, hownersOnly, hinfrastructure,
    hro'.trans hreadOnly, how'.trans hownersOnly, (hin' hvalue).trans hinfrastructure⟩

def roleText : String :=
  "[module \"ci\"]\n\tpath = .github\n\trole = infrastructure\n[module \"ci\"]\n\trole\n"

def gatheredRoleText : String :=
  "[module \"ci\"]\n\tpath = .github\n\trole = infrastructure\n\trole\n"

/-- The entries of `ci`, the last of them in a section of its own. -/
def loneRole : Definitions :=
  ⟨"<inline>", [⟨"module", some "ci", [⟨"path", some ".github"⟩, ⟨"role", some "infrastructure"⟩]⟩,
    ⟨"module", some "ci", [⟨"role", none⟩]⟩]⟩

def gatheredRole : Definitions :=
  ⟨"<inline>", [⟨"module", some "ci",
    [⟨"path", some ".github"⟩, ⟨"role", some "infrastructure"⟩, ⟨"role", none⟩]⟩]⟩

/-- The last `role` of `ci` stands alone in a section of its own, and the mark stays; with the same
entries in one section it goes. -/
theorem lone_role_keeps_mark :
    parse "<inline>" roleText = .ok loneRole ∧ parse "<inline>" gatheredRoleText = .ok gatheredRole ∧
      gatheredRole.entriesAbout "ci" = loneRole.entriesAbout "ci" ∧
      loneRole.lastOf? "ci" "role" = some ⟨"role", none⟩ ∧
      (∃ m, loneRole.load "ci" = some m ∧ m.flags.infrastructure = true) ∧
      ∃ m, gatheredRole.load "ci" = some m ∧ m.flags.infrastructure = false := by
  refine ⟨by decide +kernel, by decide +kernel, by decide +kernel, by decide +kernel, ?_, ?_⟩
  · exact ⟨⟨"ci", [".github"], [], false, ⟨false, false, true⟩⟩, by decide +kernel, rfl⟩
  · exact ⟨⟨"ci", [".github"], [], false, {}⟩, by decide +kernel, rfl⟩

end ModuleGraph.Definitions
