import ModuleGraph.Proofs.Planning
import ModuleGraph.Text.Lines

/-!
# Directories that paths name

Empty components of a path and `.` lead nowhere, so a directory has many spellings. Plans compare
spellings. They are safe for the directories themselves as far as paths are spelled plainly; what a
definition declares need not be, since normalisation leaves inner components as they are.
-/

namespace ModuleGraph

namespace Path

/-- What is between the separators. -/
def components (path : String) : List (List Char) := Text.splitAt separator path.toList

/-- A component that leads nowhere. -/
def isIdle (part : List Char) : Bool := part = [] || part = ['.']

/-- The names that lead from the root of the repository to what a path names. -/
def directory (path : String) : List (List Char) := (components path).filter (!isIdle ·)

/-- Of the idle components those that normalisation leaves are missing: in front, between two
others, and `.` at the end. -/
structure PlainlySpelled (path : String) : Prop where
  not_rooted : ¬[separator] <+: path.toList
  not_doubled : ¬[separator, separator] <:+: path.toList
  no_dot_inside : ¬[separator, '.', separator] <:+: path.toList
  no_dot_behind : ¬[separator, '.'] <:+ path.toList

variable {p q s : String} {part : List Char}

/-! ### Normal paths -/

theorem not_here_prefix_dropHere (s : List Char) : ¬['.', '/'] <+: dropHere s := by
  fun_induction dropHere s with
  | case1 s ih => exact ih
  | case2 s h =>
    rintro ⟨r, rfl⟩
    exact h r rfl

theorem prefix_dropEndSeparators (s : List Char) : dropEndSeparators s <+: s := by
  rw [dropEndSeparators, ← List.reverse_suffix, List.reverse_reverse]
  exact List.dropWhile_suffix _

theorem not_separator_suffix_dropEndSeparators (s : List Char) :
    ¬[separator] <:+ dropEndSeparators s := by
  rw [dropEndSeparators, ← List.reverse_prefix, List.reverse_reverse]
  rintro ⟨r, hr⟩
  have hne : s.reverse.dropWhile (· == separator) ≠ [] := by simp [← hr]
  have hhead := List.head_dropWhile_not (· == separator) hne
  simp [← hr] at hhead

theorem normalizeChars_eq_some {s p : List Char} (h : normalizeChars s = some p) :
    p = dropEndSeparators (dropHere (Text.trimChars s)) ∧ p ≠ [] ∧ p ≠ ['.'] := by
  unfold normalizeChars at h
  split at h
  · cases h
  · cases h
  · rename_i hempty hhere
    cases h
    exact ⟨rfl, hempty, hhere⟩

/-- The idle components that a normal path cannot have. -/
theorem of_normalize (h : normalize s = some p) :
    p.toList ≠ [] ∧ p.toList ≠ ['.'] ∧ ¬['.', separator] <+: p.toList ∧
      ¬[separator] <:+ p.toList := by
  obtain ⟨cs, hcs, rfl⟩ := Option.map_eq_some_iff.1 h
  obtain ⟨hp, hempty, hhere⟩ := normalizeChars_eq_some hcs
  rw [String.toList_ofList]
  refine ⟨hempty, hhere, ?_, ?_⟩
  · intro hpre
    rw [hp] at hpre
    exact not_here_prefix_dropHere _ (hpre.trans (prefix_dropEndSeparators _))
  · rw [hp]
    exact not_separator_suffix_dropEndSeparators _

/-! ### Components -/

/-- A component stands between separators, or at an end of the path. -/
theorem exists_of_mem_components (h : part ∈ components p) :
    ∃ a b, p.toList = a ++ part ++ b ∧ (a = [] ∨ [separator] <:+ a) ∧
      (b = [] ∨ [separator] <+: b) := by
  obtain ⟨l, r, hs⟩ := List.append_of_mem h
  have hflat := Text.flatMap_splitAt separator p.toList
  rw [← components, hs, List.flatMap_append, List.flatMap_cons] at hflat
  have hfront : l.flatMap (· ++ [separator]) = [] ∨
      [separator] <:+ l.flatMap (· ++ [separator]) := by
    rcases List.eq_nil_or_concat l with rfl | ⟨l, x, rfl⟩
    · exact .inl rfl
    · refine .inr ⟨l.flatMap (· ++ [separator]) ++ x, ?_⟩
      simp
  rcases List.eq_nil_or_concat r with rfl | ⟨r, x, rfl⟩
  · refine ⟨_, [], ?_, hfront, .inl rfl⟩
    simpa [← List.append_assoc] using hflat.symm
  · refine ⟨_, separator :: (r.flatMap (· ++ [separator]) ++ x), ?_, hfront, .inr ⟨_, rfl⟩⟩
    have hcut : p.toList ++ [separator] = (l.flatMap (· ++ [separator]) ++ part ++
        separator :: (r.flatMap (· ++ [separator]) ++ x)) ++ [separator] := by
      rw [← hflat]
      simp
    exact List.append_cancel_right hcut

theorem isIdle_iff : isIdle part = true ↔ part = [] ∨ part = ['.'] := by
  simp [isIdle]

theorem not_isIdle_of_mem_components (hn : normalize s = some p) (hp : PlainlySpelled p)
    (h : part ∈ components p) : isIdle part = false := by
  obtain ⟨hempty, hhere, hfront, hbehind⟩ := of_normalize hn
  obtain ⟨a, b, hab, ha, hb⟩ := exists_of_mem_components h
  refine Bool.eq_false_iff.2 fun hidle => ?_
  rcases isIdle_iff.1 hidle with rfl | rfl
  · rcases ha with rfl | ⟨a, rfl⟩ <;> rcases hb with rfl | ⟨b, rfl⟩
    · exact hempty hab
    · exact hp.not_rooted ⟨b, by simp [hab]⟩
    · exact hbehind ⟨a, by simp [hab]⟩
    · exact hp.not_doubled ⟨a, b, by simp [hab]⟩
  · rcases ha with rfl | ⟨a, rfl⟩ <;> rcases hb with rfl | ⟨b, rfl⟩
    · exact hhere hab
    · exact hfront ⟨b, by simp [hab]⟩
    · exact hp.no_dot_behind ⟨a, by simp [hab]⟩
    · exact hp.no_dot_inside ⟨a, b, by simp [hab]⟩

theorem directory_eq_components (hn : normalize s = some p) (hp : PlainlySpelled p) :
    directory p = components p := by
  refine List.filter_eq_self.2 fun part h => ?_
  rw [not_isIdle_of_mem_components hn hp h]
  rfl

theorem isWithin_of_prefix_components (h : components q <+: components p) :
    isWithin p q = true := by
  obtain ⟨rest, hrest⟩ := h
  rw [isWithin_iff_prefix_concat, ← Text.flatMap_splitAt, ← Text.flatMap_splitAt]
  refine ⟨rest.flatMap (· ++ [separator]), ?_⟩
  rw [← List.flatMap_append]
  exact congrArg (List.flatMap (· ++ [separator])) hrest

end Path

open ModuleGraph.Path

variable {d : Definitions} {t m : Module} {n e p q : String}

theorem exists_normalize_of_load (hl : d.load n = some m) (hp : p ∈ m.paths) :
    ∃ s, normalize s = some p := by
  rw [(Definitions.paths_and_flags_of_load hl).1] at hp
  obtain ⟨sec, -, hp⟩ := List.mem_flatMap.1 hp
  obtain ⟨s, -, hs⟩ := List.mem_filterMap.1 hp
  exact ⟨s, hs⟩

theorem exists_load_of_mem_resolved (ht : d.load n = some t) (hq : q ∈ (resolve d t).paths) :
    ∃ x m, d.load x = some m ∧ q ∈ m.paths := by
  obtain ⟨m, k, hm, hq⟩ := mem_paths_resolve.1 hq
  obtain ⟨-, -, -, hl⟩ := exists_route_of_mem_expansions ht hm
  exact ⟨_, m, hl, hq⟩

theorem exists_load_of_mem_foreignPaths (he : e ∈ foreignPaths d t) :
    ∃ x m, d.load x = some m ∧ e ∈ m.paths := by
  obtain ⟨m, hm, he⟩ := List.mem_flatMap.1 he
  obtain ⟨x, -, hl⟩ := List.mem_filterMap.1 (List.mem_of_mem_filter hm)
  exact ⟨x, m, hl, he⟩

theorem exists_normalize_of_needed (ht : d.load n = some t) (hq : Needed d t q) :
    ∃ s, normalize s = some q := by
  rcases hq with hq | ⟨m, hl, -, hq⟩
  · obtain ⟨x, m, hl, hq⟩ := exists_load_of_mem_resolved ht hq
    exact exists_normalize_of_load hl hq
  · exact exists_normalize_of_load hl hq

theorem exists_normalize_of_mem_foreignPaths (he : e ∈ foreignPaths d t) :
    ∃ s, normalize s = some e := by
  obtain ⟨x, m, hl, he⟩ := exists_load_of_mem_foreignPaths he
  exact exists_normalize_of_load hl he

/-- A hidden path names neither the directory of a needed path nor one above it, if both paths are
spelled plainly. -/
theorem hidden_names_no_needed_directory (ht : d.load n = some t) (he : e ∈ (plan d t).hidden)
    (hq : Needed d t q) (hpe : PlainlySpelled e) (hpq : PlainlySpelled q) :
    ¬directory e <+: directory q := by
  obtain ⟨hforeign, hsafe⟩ := (mem_hidden_iff ht).1 he
  obtain ⟨_, hne⟩ := exists_normalize_of_mem_foreignPaths hforeign
  obtain ⟨_, hnq⟩ := exists_normalize_of_needed ht hq
  rw [directory_eq_components hne hpe, directory_eq_components hnq hpq]
  intro hpre
  have hwithin := isWithin_of_prefix_components hpre
  rw [hsafe q hq] at hwithin
  cases hwithin

theorem monorepo_hides_no_directory_of_app :
    monorepo.load "app" = some app ∧ ".github/bin" ∈ (plan monorepo app).hidden ∧
    "src/app" ∈ (resolve monorepo app).paths ∧ PlainlySpelled ".github/bin" ∧
    PlainlySpelled "src/app" ∧ ¬directory ".github/bin" <+: directory "src/app" := by
  have hhidden : ".github/bin" ∈ (plan monorepo app).hidden := by simp [hidden_monorepo_app]
  have hneeded : "src/app" ∈ (resolve monorepo app).paths := by simp [paths_monorepo_app]
  have hbin : PlainlySpelled ".github/bin" := by constructor <;> decide +kernel
  have hsrc : PlainlySpelled "src/app" := by constructor <;> decide +kernel
  refine ⟨load_monorepo_app, hhidden, hneeded, hbin, hsrc, ?_⟩
  exact hidden_names_no_needed_directory load_monorepo_app hhidden (.inl hneeded) hbin hsrc

/-- The directory of `app` is declared a second time, with a separator doubled. -/
def respelled : String :=
  "[module \"app\"]\n\tpath = src/app\n[module \"legacy\"]\n\tpath = src//app\n"

def respelledSections : List Definitions.Section :=
  [⟨"module", some "app", [⟨"path", some "src/app"⟩]⟩,
    ⟨"module", some "legacy", [⟨"path", some "src//app"⟩]⟩]

/-- The plan for `app` hides its own directory. -/
theorem respelled_hides_needed_directory :
    ∃ d t, Definitions.parse "<inline>" respelled = .ok d ∧ d.load "app" = some t ∧
      "src//app" ∈ (plan d t).hidden ∧ "src/app" ∈ (resolve d t).paths ∧
      directory "src//app" = directory "src/app" := by
  refine ⟨⟨"<inline>", respelledSections⟩, { name := "app", paths := ["src/app"] }, ?_⟩
  decide +kernel

end ModuleGraph
