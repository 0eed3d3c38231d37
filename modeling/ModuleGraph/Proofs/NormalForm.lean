import ModuleGraph.Proofs.ReportLines

/-!
# Paths that read back

A declared path is trimmed before the `./` in front and the separators behind are taken away, and
that may bring blanks to its ends. Where it does, what is printed is not what is read back: a normal
path is its own normal form exactly if no blank stands at its ends. Normalising again and again
reaches a path that is.
-/

namespace ModuleGraph

/-! ### Blanks at the ends -/

namespace Text

variable {s : List Char}

/-- No blank stands at an end. -/
structure Unpadded (s : List Char) : Prop where
  front : ∀ c ∈ s.head?, isBlank c = false
  behind : ∀ c ∈ s.getLast?, isBlank c = false

theorem unpadded_iff_all :
    (s.head?.all (!isBlank ·) && s.getLast?.all (!isBlank ·)) = true ↔ Unpadded s := by
  simp only [Bool.and_eq_true, Option.all_eq_true, Bool.not_eq_true']
  exact ⟨fun h => ⟨h.1, h.2⟩, fun h => ⟨h.front, h.behind⟩⟩

instance : DecidablePred Unpadded := fun _ => decidable_of_iff _ unpadded_iff_all

theorem trimStartChars_eq_self_iff :
    trimStartChars s = s ↔ ∀ c ∈ s.head?, isBlank c = false := by
  constructor
  · intro h c hc
    have hstop := List.head?_dropWhile_not isBlank s
    rw [← trimStartChars, h, Option.mem_def.1 hc] at hstop
    exact hstop
  · intro h
    cases s with
    | nil => rfl
    | cons c s => exact List.dropWhile_cons_of_neg (by simp [h c rfl])

theorem trimEndChars_eq_self_iff :
    trimEndChars s = s ↔ ∀ c ∈ s.getLast?, isBlank c = false := by
  rw [trimEndChars, List.reverse_eq_iff, trimStartChars_eq_self_iff, List.head?_reverse]

theorem prefix_trimEndChars (s : List Char) : trimEndChars s <+: s := by
  rw [trimEndChars, ← List.reverse_suffix, List.reverse_reverse]
  exact List.dropWhile_suffix _

theorem trimChars_eq_self_iff : trimChars s = s ↔ Unpadded s := by
  constructor
  · intro h
    have hstart : trimStartChars s <:+ s := List.dropWhile_suffix _
    have hend : (trimChars s).length ≤ (trimStartChars s).length :=
      (prefix_trimEndChars (trimStartChars s)).length_le
    rw [h] at hend
    have hself := hstart.eq_of_length (Nat.le_antisymm hstart.length_le hend)
    rw [trimChars, hself] at h
    exact ⟨trimStartChars_eq_self_iff.1 hself, trimEndChars_eq_self_iff.1 h⟩
  · intro h
    rw [trimChars, trimStartChars_eq_self_iff.2 h.front, trimEndChars_eq_self_iff.2 h.behind]

theorem unpadded_trimChars (s : List Char) : Unpadded (trimChars s) := by
  have hstop := List.head?_dropWhile_not isBlank
  constructor
  · intro c hc
    obtain ⟨rest, hrest⟩ := prefix_trimEndChars (trimStartChars s)
    have hfront : (trimStartChars s).head? = some c := by
      rw [← hrest, List.head?_append, ← trimChars, Option.mem_def.1 hc]
      rfl
    have hblank := hstop s
    rw [← trimStartChars, hfront] at hblank
    exact hblank
  · intro c hc
    rw [trimChars, trimEndChars, List.getLast?_reverse] at hc
    have hblank := hstop (trimStartChars s).reverse
    rw [← trimStartChars, Option.mem_def.1 hc] at hblank
    exact hblank

end Text

/-! ### Normal forms of normal forms -/

namespace Path

variable {s p q : String}

theorem dropHere_eq_self {s : List Char} (h : ¬['.', separator] <+: s) : dropHere s = s := by
  unfold dropHere
  split
  · rename_i s
    exact absurd ⟨s, rfl⟩ h
  · rfl

theorem dropEndSeparators_eq_self {s : List Char} (h : ¬[separator] <:+ s) :
    dropEndSeparators s = s := by
  obtain ⟨n, hn⟩ := exists_dropEndSeparators_append s
  cases n with
  | zero => rw [List.replicate_zero, List.append_nil] at hn; exact hn.symm
  | succ n =>
    rw [List.replicate_succ', ← List.append_assoc] at hn
    exact absurd ⟨_, hn.symm⟩ h

/-- A normal path is its own normal form exactly if it has no blank at its ends. -/
theorem normalize_eq_self_iff (h : normalize s = some p) :
    normalize p = some p ↔ Text.Unpadded p.toList := by
  obtain ⟨hempty, hdot, hfront, hbehind⟩ := of_normalize h
  rw [← Text.trimChars_eq_self_iff]
  constructor
  · intro hp
    obtain ⟨cs, hcs, he⟩ := Option.map_eq_some_iff.1 hp
    rw [← String.toList_inj, String.toList_ofList] at he
    subst he
    -- No step makes a text longer, so the first one leaves it as it is.
    have hlength := (prefix_dropEndSeparators (dropHere (Text.trimChars p.toList))).length_le
    rw [← (normalizeChars_eq_some hcs).1] at hlength
    have hhere := (suffix_dropHere (Text.trimChars p.toList)).length_le
    have htrim := Text.trimChars_infix p.toList
    exact htrim.eq_of_length (Nat.le_antisymm htrim.length_le (Nat.le_trans hlength hhere))
  · intro hp
    have hchars : normalizeChars p.toList = some p.toList := by
      rw [normalizeChars, hp, dropHere_eq_self hfront, dropEndSeparators_eq_self hbehind]
      split
      · contradiction
      · contradiction
      · rfl
    rw [normalize, hchars, Option.map_some, String.ofList_toList]

/-- What a text is made of besides the blanks around it: `./` some times, a path, and separators. Only
behind a `./` and in front of a separator can the path have a blank at an end. -/
structure Core (s p : List Char) (heres separators : Nat) : Prop where
  trimmed : Text.trimChars s =
    (List.replicate heres ['.', separator]).flatten ++ (p ++ List.replicate separators separator)
  front : heres = 0 → ∀ c ∈ p.head?, Text.isBlank c = false
  behind : separators = 0 → ∀ c ∈ p.getLast?, Text.isBlank c = false

theorem exists_core (h : normalize s = some p) : ∃ j k, Core s.toList p.toList j k := by
  obtain ⟨cs, hcs, rfl⟩ := Option.map_eq_some_iff.1 h
  obtain ⟨j, hj⟩ := exists_append_dropHere (Text.trimChars s.toList)
  obtain ⟨k, hk⟩ := exists_dropEndSeparators_append (dropHere (Text.trimChars s.toList))
  rw [← (normalizeChars_eq_some hcs).1] at hk
  have htrimmed := hk ▸ hj
  have hpad := Text.unpadded_trimChars s.toList
  rw [String.toList_ofList]
  refine ⟨j, k, htrimmed, ?_, ?_⟩
  · rintro rfl c hc
    refine hpad.front c ?_
    rw [htrimmed, List.replicate_zero, List.flatten_nil, List.nil_append, List.head?_append,
      Option.mem_def.1 hc]
    rfl
  · rintro rfl c hc
    refine hpad.behind c ?_
    rw [htrimmed, List.replicate_zero, List.append_nil, List.getLast?_append, Option.mem_def.1 hc]
    rfl

theorem length_lt_of_normalize (h : normalize s = some p) (hne : p ≠ s) : p.length < s.length := by
  obtain ⟨cs, hcs, rfl⟩ := Option.map_eq_some_iff.1 h
  have hpart := normalizeChars_infix hcs
  rw [← String.length_toList, ← String.length_toList, String.toList_ofList]
  refine Nat.lt_of_le_of_ne hpart.length_le fun hlength => hne ?_
  rw [hpart.eq_of_length hlength, String.ofList_toList]

def normalizeTimes : Nat → String → Option String
  | 0, s => some s
  | n + 1, s => (normalize s).bind (normalizeTimes n)

/-- Each time that does not leave a path as it is makes it shorter. -/
theorem exists_normalizeTimes (s : String) :
    ∃ n ≤ s.length + 1, ∀ p, normalizeTimes n s = some p → normalize p = some p := by
  induction hlength : s.length using Nat.strong_induction_on generalizing s with
  | h l ih =>
    subst hlength
    cases hs : normalize s with
    | none => exact ⟨1, Nat.le_add_left 1 _, by simp [normalizeTimes, hs]⟩
    | some q =>
      by_cases hq : q = s
      · refine ⟨0, Nat.zero_le _, ?_⟩
        rintro p ⟨⟩
        rw [hs, hq]
      · have hlt := length_lt_of_normalize hs hq
        obtain ⟨n, hn, hfixed⟩ := ih q.length hlt q rfl
        exact ⟨n + 1, by omega, by simpa [normalizeTimes, hs] using hfixed⟩

end Path

/-! ### Printed paths -/

namespace FileList

theorem filterMap_eq_self_iff {α : Type} {f : α → Option α} {l : List α} :
    l.filterMap f = l ↔ ∀ a ∈ l, f a = some a := by
  induction l with
  | nil => simp
  | cons a l ih =>
    rw [List.forall_mem_cons]
    cases ha : f a with
    | none =>
      rw [List.filterMap_cons_none ha]
      refine iff_of_false (fun h => ?_) fun h => nomatch h.1
      have hle := List.length_filterMap_le f l
      rw [h, List.length_cons] at hle
      omega
    | some b => rw [List.filterMap_cons_some ha, List.cons.injEq, ih, Option.some.injEq]

variable {paths : List String}

/-- Normal paths given one by one stay as they are exactly if none has a blank at an end. -/
theorem ofArguments_eq_self_iff (h : ∀ p ∈ paths, ∃ s, Path.normalize s = some p) :
    ofArguments paths = paths ↔ ∀ p ∈ paths, Text.Unpadded p.toList := by
  rw [ofArguments, filterMap_eq_self_iff]
  refine forall₂_congr fun p hp => ?_
  obtain ⟨s, hs⟩ := h p hp
  exact Path.normalize_eq_self_iff hs

/-- Normal paths given one a line also have to keep to their lines. -/
theorem read?_encoded_eq_self_iff (h : ∀ p ∈ paths, ∃ s, Path.normalize s = some p) (e : LineEnd)
    (closed : Bool) : read? (encoded e closed paths) = some paths ↔
      ∀ p ∈ paths, Text.Unpadded p.toList ∧ '\n' ∉ p.toList := by
  constructor
  · intro hread
    have hchars : ofChars (listing e closed paths).toList = paths := by
      rwa [read?, encoded, Text.decode?_toUTF8, Option.map_some, Option.some.injEq] at hread
    have hline : ∀ p ∈ paths, '\n' ∉ p.toList := fun p hp => (isEntry_of_mem_ofChars (hchars ▸ hp)).2
    rw [ofChars_listing hline, ofArguments_eq_self_iff h] at hchars
    exact fun p hp => ⟨hchars p hp, hline p hp⟩
  · intro hall
    rw [read?_encoded (fun p hp => (hall p hp).2),
      (ofArguments_eq_self_iff h).2 fun p hp => (hall p hp).1]

end FileList

variable {d : Definitions} {m : Module} {n p : String}

theorem exists_normalize_of_resolved (h : d.load n = some m) :
    ∀ p ∈ (resolve d m).paths, ∃ s, Path.normalize s = some p :=
  fun _ hp => exists_normalize_of_needed h (.inl hp)

theorem ask_paths_of_load (h : d.load n = some m) (listed : Option (List String)) :
    (Program.ask d listed (.paths n .text)).result =
      .ok (FileList.listing .feed true (resolve d m).paths) := by
  obtain ⟨q, qs, hpaths, hq⟩ := paths_resolve_eq_cons h
  simp only [Program.ask, Program.about, Definitions.require_eq_ok_iff.2 h, Program.pathsAnswer]
  rw [Report.resolution, hpaths, Program.emitted, if_neg (Report.joinLines_ne_empty hq)]
  rfl

theorem partition_of_mem {paths : List String} (h : p ∈ paths) :
    Path.partition [p] paths = ⟨[p], []⟩ := by
  have hbelongs : Path.belongsTo p paths = true :=
    List.any_eq_true.2 ⟨p, h, Path.isWithin_self p⟩
  simp [Path.partition, hbelongs]

/-- A normal path normalises to itself exactly if no blank stands at its ends; one gets there only
behind a `./` or in front of a separator. Normalising again and again reaches such a path, or none.
What is printed for a module reads back as the same paths exactly if all of them are such and, in a
list, hold no line feed. A declared path that is such lies inside. -/
theorem printed_paths_read_back_iff (s : String) (d : Definitions) :
    (∀ p, Path.normalize s = some p →
      (Path.normalize p = some p ↔ Text.Unpadded p.toList) ∧
      ∃ j k, Path.Core s.toList p.toList j k) ∧
    (∃ k ≤ s.length + 1, ∀ p, Path.normalizeTimes k s = some p → Path.normalize p = some p) ∧
    ∀ n m listed, d.load n = some m →
      (Program.ask d listed (.paths n .text)).result =
        .ok (FileList.listing .feed true (resolve d m).paths) ∧
      (FileList.ofArguments (resolve d m).paths = (resolve d m).paths ↔
        ∀ p ∈ (resolve d m).paths, Text.Unpadded p.toList) ∧
      (FileList.read? (FileList.encoded .feed true (resolve d m).paths) =
          some (resolve d m).paths ↔
        ∀ p ∈ (resolve d m).paths, Text.Unpadded p.toList ∧ '\n' ∉ p.toList) ∧
      ∀ p ∈ m.paths, Text.Unpadded p.toList →
        FileList.ofArguments [p] = [p] ∧ Path.partition [p] (resolve d m).paths = ⟨[p], []⟩ := by
  refine ⟨?_, Path.exists_normalizeTimes s, ?_⟩
  · intro p h
    exact ⟨Path.normalize_eq_self_iff h, Path.exists_core h⟩
  · intro n m listed h
    have hnormal := exists_normalize_of_resolved h
    refine ⟨ask_paths_of_load h listed, FileList.ofArguments_eq_self_iff hnormal,
      FileList.read?_encoded_eq_self_iff hnormal .feed true, ?_⟩
    intro p hp hpad
    have hmem : p ∈ (resolve d m).paths := mem_paths_resolve_of_own hp
    have hself : ∀ q ∈ [p], ∃ s, Path.normalize s = some q :=
      List.forall_mem_singleton.2 (hnormal p hmem)
    exact ⟨(FileList.ofArguments_eq_self_iff hself).2 (List.forall_mem_singleton.2 hpad),
      partition_of_mem hmem⟩

theorem monorepo_paths_read_back :
    Path.normalize "\t./././docs/a b// " = some "docs/a b" ∧
    Path.normalize "docs/a b" = some "docs/a b" ∧
    monorepo.load "app" = some app ∧
    (Program.ask monorepo none (.paths "app" .text)).result = .ok "src/app\nsrc/ui\nlib\n" ∧
    FileList.read? "src/app\nsrc/ui\nlib\n".toUTF8 = some ["src/app", "src/ui", "lib"] ∧
    Path.partition ["src/app"] (resolve monorepo app).paths = ⟨["src/app"], []⟩ := by
  have hdocs : Path.normalize "\t./././docs/a b// " = some "docs/a b" := by decide +kernel
  obtain ⟨hself, -, hprinted⟩ :=
    printed_paths_read_back_iff "\t./././docs/a b// " monorepo
  obtain ⟨hanswer, -, hread, hown⟩ := hprinted "app" app none load_monorepo_app
  rw [paths_monorepo_app] at hanswer hread
  have happ := hown "src/app" (by decide +kernel) (by decide +kernel)
  refine ⟨hdocs, (hself _ hdocs).1.2 (by decide +kernel), load_monorepo_app, ?_, ?_, happ.2⟩
  · rw [hanswer]
    decide +kernel
  · exact hread.2 (by decide +kernel)

/-- A path with a blank behind the `./`. -/
def indented : String := "[module \"app\"]\n\tpath = ./ guide\n"

def indentedApp : Definitions := ⟨"<inline>", [⟨"module", some "app", [⟨"path", some "./ guide"⟩]⟩]⟩

/-- The path is printed with the blank in front. Read back without it, it lies outside. -/
theorem indented_path_reads_back_outside :
    Path.normalize "./ guide" = some " guide" ∧ Path.normalize " guide" = some "guide" ∧
    Definitions.parse "<inline>" indented = .ok indentedApp ∧
    ∃ m, indentedApp.load "app" = some m ∧ m.paths = [" guide"] ∧
      (Program.ask indentedApp none (.paths "app" .text)).result = .ok " guide\n" ∧
      FileList.ofArguments [" guide"] = ["guide"] ∧
      FileList.read? " guide\n".toUTF8 = some ["guide"] ∧
      Path.partition ["guide"] (resolve indentedApp m).paths = ⟨[], ["guide"]⟩ := by
  refine ⟨by decide +kernel, by decide +kernel, by decide +kernel,
    { name := "app", paths := [" guide"] }, ?_⟩
  decide +kernel

end ModuleGraph
