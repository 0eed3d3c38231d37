import ModuleGraph.Proofs.Inheritance
import ModuleGraph.Proofs.KeyLayout

/-!
# Texts put one behind the other

A definition text with another one behind it, on a line of its own, has the sections of both. What
is read of the first text stays as it is: the line end closes the value, the key or the comment that
is open where that text ends. Only a backslash with a line end behind it would join the next line.
-/

namespace ModuleGraph.Definitions

open Text (isInlineBlank dropInlineBlanks dropByteOrderMark)

variable {s t r rest b : List Char} {value : Option String} {es : List Entry}

/-- The text ends where the next line would be joined to it. -/
def EndsJoined (s : List Char) : Prop := ∃ join ∈ lineJoins, join <:+ s

instance (s : List Char) : Decidable (EndsJoined s) :=
  inferInstanceAs (Decidable (∃ join ∈ lineJoins, join <:+ s))

theorem EndsJoined.of_suffix (h : EndsJoined t) (ht : t <:+ s) : EndsJoined s := by
  obtain ⟨join, hjoin, hsuffix⟩ := h
  exact ⟨join, hjoin, hsuffix.trans ht⟩

/-! ### Values -/

theorem valueLines_slash {quoted : Bool} {c : Char} (h : isEscapable c = true) (s : List Char) :
    valueLines quoted ('\\' :: c :: s) = (valueLines quoted s).map (onFirst ['\\', c]) := by
  have hline : c ≠ '\n' := by
    rintro rfl
    cases h
  have hreturn : c ≠ '\r' := by
    rintro rfl
    cases h
  simp [valueLines, hreturn, h]

theorem onFirst_append (cs : List Char) (v : List (List Char) × List Char) (t : List Char) :
    onFirst cs (v.1, v.2 ++ t) = ((onFirst cs v).1, (onFirst cs v).2 ++ t) := by
  obtain ⟨_ | _, _⟩ := v <;> rfl

theorem valueLines_append {quoted : Bool} {v : List (List Char) × List Char}
    (h : valueLines quoted s = some v) (b : List Char) :
    valueLines quoted (s ++ '\n' :: b) = some (v.1, v.2 ++ '\n' :: b) := by
  fun_induction valueLines quoted s generalizing v
  case case2 hopen =>
    cases h
    simp [valueLines, hopen]
  case case3 s ih | case4 s ih =>
    obtain ⟨a, ha, rfl⟩ := Option.map_eq_some_iff.1 h
    simp [valueLines, ih ha]
  case case5 c s _ _ hc ih =>
    obtain ⟨a, ha, rfl⟩ := Option.map_eq_some_iff.1 h
    rw [List.cons_append, List.cons_append, valueLines_slash hc, ih ha, Option.map_some,
      onFirst_append]
  case case8 s _ _ _ _ ih =>
    obtain ⟨a, ha, rfl⟩ := Option.map_eq_some_iff.1 h
    simp [valueLines, ih ha, onFirst_append]
  case case12 quoted c s _ _ _ hslash hquote hline hplain ih =>
    obtain ⟨a, ha, rfl⟩ := Option.map_eq_some_iff.1 h
    have hc : quoted = true ∨ (c ≠ ';' ∧ c ≠ '#') := by
      cases quoted <;> simp_all
    rw [List.cons_append, valueLines_cons_of_plain hslash hquote hline hc, ih ha, Option.map_some,
      onFirst_append]
  case case10 s hopen _ _ _ _ _ =>
    cases h
    simp [valueLines, hopen]
  case case11 quoted c s _ _ _ hslash hquote hline hcomment =>
    cases h
    simp only [Bool.and_eq_true, Bool.not_eq_true', Bool.or_eq_true, beq_iff_eq] at hcomment
    obtain ⟨rfl, rfl | rfl⟩ := hcomment
    · simp [valueLines]
    · simp [valueLines]
  all_goals cases h

theorem readValue?_append {v : String} (h : readValue? s = some (v, r)) (hs : ¬ EndsJoined s)
    (b : List Char) : readValue? (s ++ '\n' :: b) = some (v, r ++ '\n' :: b) := by
  obtain ⟨w, hw, he⟩ := Option.map_eq_some_iff.1 h
  obtain ⟨front, last, hlines, hcut⟩ := lastLine_valueLines hw
  have hlast : w.1.getLast?.getD [] = last := by simp [hlines]
  rw [readValue?, valueLines_append hw, Option.map_some]
  simp only [hlast] at he ⊢
  split at he
  · rename_i hempty
    obtain ⟨rfl, hrest⟩ := hempty
    cases he
    -- A last line that is missing is the only one: no join stands at the end.
    have hfront : front = [] := by
      rcases hcut with ⟨hfront, -⟩ | ⟨-, join, hjoin, hsuffix⟩
      · exact hfront
      · rw [hrest, List.append_nil, List.append_nil] at hsuffix
        exact absurd ⟨join, hjoin, hsuffix⟩ hs
    simp [hrest, hlines, hfront, dropEndBlanks, endBlanks, unescape, unescapeFrom]
  · cases he
    simp

theorem dropWhile_append_line {p : Char → Bool} (hp : p '\n' = false) (s b : List Char) :
    (s ++ '\n' :: b).dropWhile p = s.dropWhile p ++ '\n' :: b := by
  rw [List.dropWhile_append, List.dropWhile_cons_of_neg (by simp [hp])]
  split
  · rename_i h
    rw [List.isEmpty_iff.1 h, List.nil_append]
  · rfl

theorem takeWhile_append_line {p : Char → Bool} (hp : p '\n' = false) (s b : List Char) :
    (s ++ '\n' :: b).takeWhile p = s.takeWhile p := by
  rw [List.takeWhile_append, List.takeWhile_cons_of_neg (by simp [hp])]
  split
  · rename_i h
    rw [List.append_nil, (List.takeWhile_prefix p).eq_of_length h]
  · rfl

theorem dropInlineBlanks_append (s b : List Char) :
    dropInlineBlanks (s ++ '\n' :: b) = dropInlineBlanks s ++ '\n' :: b :=
  dropWhile_append_line rfl s b

theorem readAssigned_append (h : readAssigned s = .ok (value, r)) (hs : ¬ EndsJoined s)
    (b : List Char) : readAssigned (s ++ '\n' :: b) = .ok (value, r ++ '\n' :: b) := by
  unfold readAssigned at h
  split at h
  · rename_i t ht
    split at h
    · rename_i v r' hv
      cases h
      have htail : dropInlineBlanks t <:+ s :=
        (List.dropWhile_suffix _).trans
          ((List.suffix_cons '=' t).trans (ht ▸ List.dropWhile_suffix isInlineBlank))
      have hread := readValue?_append hv (fun h => hs (h.of_suffix htail)) b
      simp only [readAssigned, dropInlineBlanks_append, ht, List.cons_append, hread]
    · cases h
  · rename_i hassign
    cases h
    have hbare : (dropInlineBlanks (s ++ '\n' :: b)).head? ≠ some '=' := by
      rw [dropInlineBlanks_append]
      cases hd : dropInlineBlanks s with
      | nil => simp
      | cons c t =>
        rintro hc
        cases hc
        exact hassign t hd
    rw [readAssigned_of_bare hbare, dropInlineBlanks_append]
    simp

theorem readKey?_append {key : List Char} (h : readKey? s = some (key, t)) (b : List Char) :
    readKey? (s ++ '\n' :: b) = some (key, t ++ '\n' :: b) := by
  cases s with
  | nil => cases h
  | cons c s =>
    simp only [readKey?, Option.ite_none_right_eq_some, Option.some.injEq, Prod.mk.injEq] at h
    obtain ⟨hc, rfl, rfl⟩ := h
    rw [List.cons_append, readKey?, if_pos hc, takeWhile_append_line rfl, dropWhile_append_line rfl]

theorem readLabel?_append {l : List Char} (h : readLabel? s = some (l, r)) (t : List Char) :
    readLabel? (s ++ t) = some (l, r ++ t) := by
  fun_induction readLabel? s generalizing l
  case case1 =>
    cases h
    rfl
  case case3 c s hc ih =>
    obtain ⟨a, ha, he⟩ := Option.map_eq_some_iff.1 h
    cases he
    simp [readLabel?, hc, ih ha]
  case case5 c s hquote _ hc ih =>
    obtain ⟨a, ha, he⟩ := Option.map_eq_some_iff.1 h
    cases he
    obtain ⟨hslash, hplain⟩ := not_or.1 hc
    simp [readLabel?, hslash, not_or.1 hplain, ih ha]
  all_goals cases h

theorem readHeaderEnd?_append {name : List Char} {hd : Header}
    (h : readHeaderEnd? name s = some (hd, r)) (b : List Char) :
    readHeaderEnd? name (s ++ '\n' :: b) = some (hd, r ++ '\n' :: b) := by
  unfold readHeaderEnd? at h
  split at h
  · split at h
    · cases h
    · rename_i n l hsplit
      cases h
      simp only [List.cons_append, readHeaderEnd?]
      split
      · simp_all
      · simp_all
  · rename_i c s hclose
    split at h
    · rename_i hblank
      split at h
      · rename_i t ht
        split at h
        · rename_i l r' hl
          cases h
          have hread := readLabel?_append hl ('\n' :: b)
          simp [readHeaderEnd?, hblank, dropInlineBlanks_append, ht, hread]
        · cases h
      · cases h
    · cases h
  · cases h

theorem readHeader?_append {hd : Header} (h : readHeader? s = some (hd, r)) (b : List Char) :
    readHeader? (s ++ '\n' :: b) = some (hd, r ++ '\n' :: b) := by
  unfold readHeader? at h
  split at h
  · rename_i s
    split at h
    · cases h
    · rename_i n name hname
      rw [List.cons_append, readHeader?, takeWhile_append_line rfl, dropWhile_append_line rfl,
        hname]
      exact readHeaderEnd?_append h b
  · cases h

theorem skipFiller_comment {c : Char} (hc : c ≠ '\n') (s : List Char) :
    skipFiller true (c :: s) = skipFiller true s := by
  rw [skipFiller.eq_def]
  split
  · rename_i he
    cases he
  · rename_i t he
    cases he
    exact absurd rfl hc
  · rename_i t he
    cases he
    rw [skipFiller]
  · rename_i he
    cases he
    rw [if_pos rfl]

theorem skipFiller_blank {c : Char} (hc : isInlineBlank c = true) (s : List Char) :
    skipFiller false (c :: s) = skipFiller false s := by
  have hcases : c = ' ' ∨ c = '\t' := by simpa [isInlineBlank] using hc
  rcases hcases with rfl | rfl <;> simp [skipFiller, isInlineBlank]

theorem skipFiller_sign {c : Char} (hc : c = ';' ∨ c = '#') (s : List Char) :
    skipFiller false (c :: s) = skipFiller true s := by
  rcases hc with rfl | rfl <;> simp [skipFiller, isInlineBlank]

theorem skipFiller_append (inComment : Bool) (s b : List Char) :
    skipFiller inComment (s ++ '\n' :: b) =
      skipFiller false (skipFiller inComment s ++ '\n' :: b) := by
  fun_induction skipFiller inComment s
  case case1 => simp [skipFiller]
  case case2 ih => simpa [skipFiller] using ih
  case case3 ih => simpa [skipFiller] using ih
  case case4 c s hline _ ih =>
    rw [List.cons_append, skipFiller_comment hline]
    exact ih
  case case5 inComment c s _ _ hopen hblank ih =>
    rw [Bool.eq_false_iff.2 hopen, List.cons_append, skipFiller_blank hblank]
    exact ih
  case case6 inComment c s _ _ hopen _ hsign ih =>
    rw [Bool.eq_false_iff.2 hopen, List.cons_append, skipFiller_sign (by simpa using hsign)]
    exact ih
  case case7 inComment c s _ _ hopen _ _ => rw [Bool.eq_false_iff.2 hopen]

/-- The text begins with a header, or there is none. -/
def AtHeader (s : List Char) : Prop := s = [] ∨ ∃ t, s = '[' :: t

theorem skipFiller_of_atHeader (h : AtHeader s) : skipFiller false s = s := by
  rcases h with rfl | ⟨t, rfl⟩
  · rfl
  · simp [skipFiller, isInlineBlank]

theorem readKey?_of_atHeader (h : AtHeader s) : readKey? s = none := by
  rcases h with rfl | ⟨t, rfl⟩
  · rfl
  · simp [readKey?]

/-- What is left of a text, with another one behind it on a line of its own. -/
theorem skipFiller_atHeader_append (h : AtHeader s) (b : List Char) :
    skipFiller false (s ++ '\n' :: b) = if s = [] then skipFiller false b else s ++ '\n' :: b := by
  rcases h with rfl | ⟨t, rfl⟩
  · simp [skipFiller]
  · simp [skipFiller, isInlineBlank]

theorem atHeader_skipFiller_append (h : AtHeader s) (hb : AtHeader b) :
    AtHeader (skipFiller false (s ++ '\n' :: b)) := by
  rw [skipFiller_atHeader_append h]
  split
  · rw [skipFiller_of_atHeader hb]
    exact hb
  · rcases h with rfl | ⟨t, rfl⟩
    · simp_all
    · exact .inr ⟨_, rfl⟩

theorem skipFiller_append_of_readKey? {key : List Char}
    (h : readKey? (skipFiller false s) = some (key, t)) (b : List Char) :
    skipFiller false (s ++ '\n' :: b) = skipFiller false s ++ '\n' :: b := by
  rw [skipFiller_append]
  cases hs : skipFiller false s with
  | nil =>
    rw [hs] at h
    cases h
  | cons c u =>
    rw [hs, readKey?, Option.ite_none_right_eq_some] at h
    have hplain := isPlain_of_isAlpha h.1
    simp [skipFiller, hplain.not_line, hplain.not_return, hplain.not_comment, hplain.not_inline]

theorem readEntries_append (h : readEntries s = .ok (es, rest)) (hs : ¬ EndsJoined s)
    (hrest : AtHeader rest) (hb : AtHeader b) :
    readEntries (s ++ '\n' :: b) = .ok (es, skipFiller false (rest ++ '\n' :: b)) := by
  fun_induction readEntries s generalizing es
  case case1 s hk =>
    cases h
    have hnone := readKey?_of_atHeader (atHeader_skipFiller_append hrest hb)
    rw [← skipFiller_append] at hnone ⊢
    exact readEntries_of_no_key hnone
  case case4 s key t hk value r ha es' rest' hr ih =>
    cases h
    have hkey : key ++ t <:+ s := by
      rw [← (eq_append_of_readKey? hk).1]
      exact skipFiller_suffix false s
    have ht : t <:+ s := (List.suffix_append key t).trans hkey
    have hjoined : ¬ EndsJoined t := fun h => hs (h.of_suffix ht)
    have hr' : ¬ EndsJoined r := fun h => hjoined (h.of_suffix (readAssigned_suffix ha))
    have hread := readKey?_append hk b
    rw [← skipFiller_append_of_readKey? hk] at hread
    exact readEntries_cons hread (readAssigned_append ha hjoined b) (ih hr hr')
  all_goals cases h

theorem atHeader_of_readSections {ss : List Section} (h : readSections s = .ok (ss, [])) :
    AtHeader s := by
  cases hh : readHeader? s with
  | none =>
    rw [readSections_of_no_header hh] at h
    cases h
    exact .inl rfl
  | some x => exact .inr (readHeader?_suffix hh).2

theorem readSections_append {ss ss' : List Section} (h : readSections s = .ok (ss, []))
    (hs : ¬ EndsJoined s) (hb : readSections b = .ok (ss', [])) :
    readSections (skipFiller false (s ++ '\n' :: b)) = .ok (ss ++ ss', []) := by
  fun_induction readSections s generalizing ss
  case case1 s hh =>
    cases h
    have hskip : skipFiller false ([] ++ '\n' :: b) = b := by
      rw [List.nil_append, skipFiller, skipFiller_of_atHeader (atHeader_of_readSections hb)]
    rw [hskip]
    exact hb
  case case4 s hd t hh es r he ss₁ rest hr ih =>
    cases h
    obtain ⟨ht, u, hu⟩ := readHeader?_suffix hh
    have hskip : skipFiller false (s ++ '\n' :: b) = s ++ '\n' :: b := by
      rw [skipFiller_atHeader_append (.inr ⟨u, hu⟩), if_neg (by simp [hu])]
    have hjoined : ¬ EndsJoined t := fun h => hs (h.of_suffix ht)
    have hr' : ¬ EndsJoined r := fun h => hjoined (h.of_suffix (keysIn_suffix he).1)
    rw [hskip]
    have hentries := readEntries_append he hjoined (atHeader_of_readSections hr)
      (atHeader_of_readSections hb)
    exact readSections_cons (readHeader?_append hh b) hentries (ih hr hr')
  all_goals cases h

/-! ### Texts -/

theorem readText_eq (h : AtHeader (skipFiller false s)) :
    readText s = readText (skipFiller false s) := by
  rw [readText, readText, skipFiller_of_atHeader h]

theorem dropByteOrderMark_append (s b : List Char) :
    dropByteOrderMark (s ++ '\n' :: b) = dropByteOrderMark s ++ '\n' :: b := by
  cases s with
  | nil => rfl
  | cons c s =>
    by_cases hc : c = '\uFEFF'
    · rw [hc]
      rfl
    · simp [dropByteOrderMark, hc]

theorem skipFiller_of_header (hb : s.head? = some '[') :
    skipFiller false (dropByteOrderMark s) = s := by
  cases s with
  | nil => cases hb
  | cons c s =>
    cases hb
    exact skipFiller_of_atHeader (.inr ⟨s, rfl⟩)

variable {source source₁ source₂ text₁ text₂ : String} {d d₁ d₂ : Definitions}

theorem parse_of_readSections {text : String} {ss : List Section}
    (h : readSections (skipFiller false (dropByteOrderMark text.toList)) = .ok (ss, [])) :
    parse source text = .ok ⟨source, ss⟩ := by
  have hhead := atHeader_of_readSections h
  have hread : readText (dropByteOrderMark text.toList) = .ok ss := by
    rw [readText_eq hhead]
    exact readText_of_readSections hhead h
  rw [parse, readSectionList, hread]

theorem parse_append_eq (h₁ : parse source₁ text₁ = .ok d₁) (h₂ : parse source₂ text₂ = .ok d₂)
    (hstart : text₂.toList.head? = some '[') (hend : ¬ EndsJoined text₁.toList)
    (source : String) :
    parse source (text₁ ++ "\n" ++ text₂) = .ok ⟨source, d₁.sections ++ d₂.sections⟩ := by
  have hread₁ := readSections_of_parse h₁
  have hread₂ := readSections_of_parse h₂
  rw [skipFiller_of_header hstart] at hread₂
  have hjoined : ¬ EndsJoined (skipFiller false (dropByteOrderMark text₁.toList)) := by
    intro h
    exact hend (h.of_suffix ((skipFiller_suffix false _).trans (dropByteOrderMark_suffix _)))
  have hread := readSections_append hread₁ hjoined hread₂
  rw [← skipFiller_append, ← dropByteOrderMark_append] at hread
  apply parse_of_readSections
  simpa using hread

/-! ### Modules -/

def declaredValues (d : Definitions) (n key : String) : List String :=
  (d.sectionsOf n).flatMap (·.values key)

/-- The paths of a module; none if it does not load. -/
def loadedPaths (d : Definitions) (n : String) : List String :=
  ((d.load n).map Module.paths).getD []

theorem loadedPaths_eq_ownPaths (d : Definitions) (n : String) : d.loadedPaths n = d.ownPaths n := by
  unfold loadedPaths
  cases hl : d.load n with
  | some m => exact (paths_and_flags_of_load hl).1
  | none => exact (load_eq_none_iff.1 hl).symm

theorem ownPaths_eq_filterMap (d : Definitions) (n : String) :
    d.ownPaths n = (d.declaredValues n "path").filterMap Path.normalize := by
  rw [ownPaths, declaredValues, List.filterMap_flatMap]
  rfl

theorem sectionsOf_append (h : d.sections = d₁.sections ++ d₂.sections) (n : String) :
    d.sectionsOf n = d₁.sectionsOf n ++ d₂.sectionsOf n := by
  rw [sectionsOf, h, List.filter_append]
  rfl

theorem declaredValues_append (h : d.sections = d₁.sections ++ d₂.sections) (n key : String) :
    d.declaredValues n key = d₁.declaredValues n key ++ d₂.declaredValues n key := by
  rw [declaredValues, sectionsOf_append h, List.flatMap_append]
  rfl

theorem names_append (h : d.sections = d₁.sections ++ d₂.sections) :
    d.names = d₁.names ++ d₂.names.filter (· ∉ d₁.names) := by
  rw [names, h, List.filterMap_append, firsts_append]
  rfl

/-- A text that can be read may have another one added that begins with a header, on a line of its
own. Then the listed names of the first text come before those that the second one adds, each module
has its values for each key, and so its paths, from the first text and then from the second, and the
modules of both are listed. -/
theorem parse_append (h₁ : parse source₁ text₁ = .ok d₁) (h₂ : parse source₂ text₂ = .ok d₂)
    (hstart : text₂.toList.head? = some '[') (hend : ¬ EndsJoined text₁.toList) (source : String) :
    ∃ d, parse source (text₁ ++ "\n" ++ text₂) = .ok d ∧
      d.names = d₁.names ++ d₂.names.filter (· ∉ d₁.names) ∧
      (∀ n key, d.declaredValues n key = d₁.declaredValues n key ++ d₂.declaredValues n key) ∧
      (∀ n, d.loadedPaths n = d₁.loadedPaths n ++ d₂.loadedPaths n) ∧
      (∀ n m, d.load n = some m → m.paths =
        (d₁.declaredValues n "path" ++ d₂.declaredValues n "path").filterMap Path.normalize) ∧
      ∀ n, n ∈ d.names ↔ n ∈ d₁.names ∨ n ∈ d₂.names := by
  have hsections : (⟨source, d₁.sections ++ d₂.sections⟩ : Definitions).sections =
      d₁.sections ++ d₂.sections := rfl
  refine ⟨_, parse_append_eq h₁ h₂ hstart hend source, names_append hsections,
    declaredValues_append hsections, fun n => ?_, fun n m hl => ?_, fun n => ?_⟩
  · simp only [loadedPaths_eq_ownPaths, ownPaths_eq_filterMap, declaredValues_append hsections,
      List.filterMap_append]
  · rw [(paths_and_flags_of_load hl).1, ownPaths_eq_filterMap, declaredValues_append hsections]
  · rw [names_append hsections, List.mem_append, List.mem_filter]
    by_cases hn : n ∈ d₁.names
    · simp [hn]
    · simp [hn]

/-- A value over two lines, and at the end a comment with a quote, a bracket and no line end. -/
def opening : String :=
  "; shared\n[module \"core\"]\n\tpath = \"lib;\" \\\n/core # \"open ["

/-- More of `core`, a module without a usable path, and at the end a bare key. -/
def addition : String :=
  "[module \"app\"]\n\tpath = src\n\tdepends = core\n[module \"core\"]\n\tpath = include\n" ++
    "[module \"ghost\"]\n\treadonly"

def openingCore : Definitions :=
  ⟨"a", [⟨"module", some "core", [⟨"path", some "lib; /core"⟩]⟩]⟩

def additionModules : Definitions :=
  ⟨"b", [⟨"module", some "app", [⟨"path", some "src"⟩, ⟨"depends", some "core"⟩]⟩,
    ⟨"module", some "core", [⟨"path", some "include"⟩]⟩,
    ⟨"module", some "ghost", [⟨"readonly", none⟩]⟩]⟩

theorem opening_takes_addition :
    parse "a" opening = .ok openingCore ∧ parse "b" addition = .ok additionModules ∧
      addition.toList.head? = some '[' ∧ ¬ EndsJoined opening.toList ∧
      ∃ d, parse "ab" (opening ++ "\n" ++ addition) = .ok d ∧ d.names = ["core", "app"] ∧
        d.declaredValues "core" "path" = ["lib; /core", "include"] ∧
        d.declaredValues "app" "depends" = ["core"] ∧
        d.loadedPaths "core" = ["lib; /core", "include"] ∧ d.loadedPaths "ghost" = [] := by
  have h₁ : parse "a" opening = .ok openingCore := by decide +kernel
  have h₂ : parse "b" addition = .ok additionModules := by decide +kernel
  have hstart : addition.toList.head? = some '[' := by decide +kernel
  have hend : ¬ EndsJoined opening.toList := by decide +kernel
  obtain ⟨d, hd, hnames, hvalues, hpaths, -⟩ := parse_append h₁ h₂ hstart hend "ab"
  refine ⟨h₁, h₂, hstart, hend, d, hd, hnames.trans ?_, (hvalues _ _).trans ?_,
    (hvalues _ _).trans ?_, (hpaths _).trans ?_, (hpaths _).trans ?_⟩
  all_goals decide +kernel

end ModuleGraph.Definitions
