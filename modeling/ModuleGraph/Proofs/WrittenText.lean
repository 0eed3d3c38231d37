import ModuleGraph.Proofs.Lookup

/-!
# Writing definitions

A label, and the value of `path` or `depends`, is written in quotes, with a backslash before each
quote and each backslash of its own; the words of flags and roles are written as they are. What is
written so is read back, with whatever text follows it.
-/

namespace ModuleGraph.Definitions

open Text (isInlineBlank dropInlineBlanks dropByteOrderMark)

/-! ### Quoted text -/

def escapeChar (c : Char) : List Char := if c = '\\' ∨ c = '"' then ['\\', c] else [c]

def escape (s : List Char) : List Char := s.flatMap escapeChar

def quoted (s : String) : List Char := '"' :: (escape s.toList ++ ['"'])

variable {s : List Char} {c : Char}

theorem escape_cons_of_special (h : c = '\\' ∨ c = '"') (s : List Char) :
    escape (c :: s) = '\\' :: c :: escape s := by
  simp [escape, escapeChar, h]

theorem escape_cons_of_plain (h : ¬(c = '\\' ∨ c = '"')) (s : List Char) :
    escape (c :: s) = c :: escape s := by
  simp [escape, escapeChar, h]

theorem readLabel?_escape (h : ∀ c ∈ s, c ≠ '\n' ∧ c ≠ '\x00') (rest : List Char) :
    readLabel? (escape s ++ '"' :: rest) = some (s, rest) := by
  induction s with
  | nil => rfl
  | cons c s ih =>
    obtain ⟨⟨hline, hnul⟩, hs⟩ := List.forall_mem_cons.1 h
    by_cases hc : c = '\\' ∨ c = '"'
    · rw [escape_cons_of_special hc, List.cons_append, List.cons_append, readLabel?, if_neg hline,
        ih hs]
      rfl
    · obtain ⟨hslash, hquote⟩ := not_or.1 hc
      rw [escape_cons_of_plain hc, List.cons_append]
      simp [readLabel?, hslash, hline, hnul, ih hs]

/-! ### Values -/

theorem valueLines_cons_of_plain {quoted : Bool} (hs : c ≠ '\\') (hq : c ≠ '"') (hn : c ≠ '\n')
    (hc : quoted = true ∨ (c ≠ ';' ∧ c ≠ '#')) (s : List Char) :
    valueLines quoted (c :: s) = (valueLines quoted s).map (onFirst [c]) := by
  rcases hc with rfl | ⟨h1, h2⟩
  · simp [valueLines, hs, hq, hn]
  · simp [valueLines, hs, hq, hn, h1, h2]

theorem valueLines_escape (h : '\n' ∉ s) {rest l r : List Char} {ls : List (List Char)}
    (hr : valueLines true rest = some (l :: ls, r)) :
    valueLines true (escape s ++ rest) = some ((escape s ++ l) :: ls, r) := by
  induction s with
  | nil => exact hr
  | cons c s ih =>
    rw [List.mem_cons, not_or] at h
    obtain ⟨hc, hs⟩ := h
    by_cases hspecial : c = '\\' ∨ c = '"'
    · have hpush : ∀ t, valueLines true ('\\' :: c :: t) =
          (valueLines true t).map (onFirst ['\\', c]) := by
        intro t
        rcases hspecial with rfl | rfl <;> simp [valueLines, isEscapable]
      rw [escape_cons_of_special hspecial, List.cons_append, List.cons_append, hpush, ih hs]
      rfl
    · obtain ⟨hslash, hquote⟩ := not_or.1 hspecial
      rw [escape_cons_of_plain hspecial, List.cons_append,
        valueLines_cons_of_plain hslash hquote (Ne.symm hc) (.inl rfl), ih hs]
      rfl

theorem valueLines_quoted (h : '\n' ∉ s) (rest : List Char) :
    valueLines false ('"' :: (escape s ++ '"' :: '\n' :: rest)) =
      some (['"' :: (escape s ++ ['"'])], '\n' :: rest) := by
  have hend : valueLines true ('"' :: '\n' :: rest) = some ([['"']], '\n' :: rest) := by
    simp [valueLines, onFirst]
  have := valueLines_escape h hend
  simp [valueLines, this, onFirst]

theorem unescapeFrom_escape (done : List Remnant) (rest : List Char) :
    unescapeFrom done (escape s ++ rest) = unescapeFrom (s.reverse.map (⟨·, 0⟩) ++ done) rest := by
  -- Each character joins what is read already, whether a backslash stands before it or not.
  induction s generalizing done with
  | nil => rfl
  | cons c s ih =>
    by_cases hc : c = '\\' ∨ c = '"'
    · have hpush : unescapeFrom done ('\\' :: c :: (escape s ++ rest)) =
          unescapeFrom (⟨c, 0⟩ :: done) (escape s ++ rest) := by
        rcases hc with rfl | rfl <;> simp [unescapeFrom]
      rw [escape_cons_of_special hc, List.cons_append, List.cons_append, hpush, ih]
      simp
    · have hpush : unescapeFrom done (c :: (escape s ++ rest)) =
          unescapeFrom (⟨c, 0⟩ :: done) (escape s ++ rest) := by
        obtain ⟨hslash, hquote⟩ := not_or.1 hc
        simp [unescapeFrom, hslash, hquote]
      rw [escape_cons_of_plain hc, List.cons_append, hpush, ih]
      simp

theorem unescape_escape (s : List Char) : unescape (escape s) = s := by
  have h := unescapeFrom_escape (s := s) [] []
  rw [List.append_nil] at h
  rw [unescape, h]
  simp [unescapeFrom, Remnant.toChar, Function.comp_def]

theorem unescape_quoted (s : List Char) : unescape ('"' :: (escape s ++ ['"'])) = s := by
  have hopen : unescapeFrom [] ('"' :: (escape s ++ ['"'])) =
      unescapeFrom [] (escape s ++ ['"']) := by
    simp [unescapeFrom]
  rw [unescape, hopen, unescapeFrom_escape]
  simp [unescapeFrom, Remnant.toChar, Function.comp_def]

/-- The character means nothing but itself, also in a value without quotes. -/
structure IsPlain (c : Char) : Prop where
  not_slash : c ≠ '\\'
  not_quote : c ≠ '"'
  not_line : c ≠ '\n'
  not_return : c ≠ '\r'
  not_comment : c ≠ ';' ∧ c ≠ '#'
  not_blank : isValueBlank c = false
  not_inline : isInlineBlank c = false

theorem isPlain_of_isAlpha (h : c.isAlpha = true) : IsPlain c := by
  have hne : ∀ d : Char, d.isAlpha = false → c ≠ d := by
    rintro d hd rfl
    rw [h] at hd
    cases hd
  refine ⟨hne _ rfl, hne _ rfl, hne _ rfl, hne _ rfl, ⟨hne _ rfl, hne _ rfl⟩, ?_, ?_⟩
  · simp only [isValueBlank, Bool.or_eq_false_iff, beq_eq_false_iff_ne]
    exact ⟨⟨⟨⟨hne _ rfl, hne _ rfl⟩, hne _ rfl⟩, hne _ rfl⟩, hne _ rfl⟩
  · simp only [isInlineBlank, Bool.or_eq_false_iff, beq_eq_false_iff_ne]
    exact ⟨hne _ rfl, hne _ rfl⟩

variable {w : List Char}

theorem escape_word (h : ∀ c ∈ w, c.isAlpha = true) : escape w = w := by
  induction w with
  | nil => rfl
  | cons c w ih =>
    obtain ⟨hc, hw⟩ := List.forall_mem_cons.1 h
    have hplain := isPlain_of_isAlpha hc
    rw [escape_cons_of_plain (not_or.2 ⟨hplain.not_slash, hplain.not_quote⟩), ih hw]

theorem unescape_word (h : ∀ c ∈ w, c.isAlpha = true) : unescape w = w := by
  have hw := unescape_escape w
  rwa [escape_word h] at hw

theorem valueLines_word (h : ∀ c ∈ w, c.isAlpha = true) (rest : List Char) :
    valueLines false (w ++ '\n' :: rest) = some ([w], '\n' :: rest) := by
  induction w with
  | nil => simp [valueLines]
  | cons c w ih =>
    obtain ⟨hc, hw⟩ := List.forall_mem_cons.1 h
    have hplain := isPlain_of_isAlpha hc
    rw [List.cons_append, valueLines_cons_of_plain hplain.not_slash hplain.not_quote
      hplain.not_line (.inr hplain.not_comment), ih hw]
    rfl

theorem dropEndBlanks_concat (h : isValueBlank c = false) (s : List Char) :
    dropEndBlanks (s ++ [c]) = s ++ [c] := by
  simp [dropEndBlanks, h]

theorem readValue?_of_line {text line rest : List Char} (hne : line ≠ [])
    (h : valueLines false text = some ([line], rest)) (hend : dropEndBlanks line = line) :
    readValue? text = some (String.ofList (unescape line), rest) := by
  have hblanks : endBlanks line = [] := by
    have := endBlanks_append line
    rw [hend] at this
    exact List.append_cancel_left (this.trans (List.append_nil line).symm)
  simp [readValue?, h, hne, hend, hblanks]

theorem readValue?_quoted {v : String} (h : '\n' ∉ v.toList) (rest : List Char) :
    readValue? (quoted v ++ '\n' :: rest) = some (v, '\n' :: rest) := by
  have hlines := valueLines_quoted h rest
  have hshape : quoted v ++ '\n' :: rest = '"' :: (escape v.toList ++ '"' :: '\n' :: rest) := by
    simp [quoted]
  rw [hshape, readValue?_of_line (by simp) hlines, unescape_quoted, String.ofList_toList]
  exact dropEndBlanks_concat rfl ('"' :: escape v.toList)

theorem readValue?_word {v : String} (hne : v ≠ "") (h : ∀ c ∈ v.toList, c.isAlpha = true)
    (rest : List Char) : readValue? (v.toList ++ '\n' :: rest) = some (v, '\n' :: rest) := by
  have hne' : v.toList ≠ [] := by simpa using hne
  rw [readValue?_of_line hne' (valueLines_word h rest), unescape_word h, String.ofList_toList]
  obtain ⟨s, c, hs⟩ := (List.eq_nil_or_concat v.toList).resolve_left hne'
  rw [List.concat_eq_append] at hs
  have hc := h c (by simp [hs])
  rw [hs]
  exact dropEndBlanks_concat (isPlain_of_isAlpha hc).not_blank s

/-! ### Entries -/

/-- A line `key = value`. -/
structure Line where
  key : String
  value : String
  deriving Repr, DecidableEq

namespace Line

def needsQuotes (l : Line) : Prop := l.key = "path" ∨ l.key = "depends"

instance (l : Line) : Decidable l.needsQuotes := inferInstanceAs (Decidable (_ ∨ _))

def writeValue (l : Line) : List Char := if l.needsQuotes then quoted l.value else l.value.toList

def write (l : Line) : List Char :=
  '\t' :: (l.key.toList ++ ' ' :: '=' :: ' ' :: (l.writeValue ++ ['\n']))

def entry (l : Line) : Entry := ⟨l.key, some l.value⟩

structure WellFormed (l : Line) : Prop where
  known : l.key ∈ knownKeys
  one_line : '\n' ∉ l.value.toList
  word : ¬l.needsQuotes → l.value ≠ "" ∧ ∀ c ∈ l.value.toList, c.isAlpha = true

end Line

variable {l : Line} {key : String}

theorem dropInlineBlanks_cons_of_not {c : Char} (h : isInlineBlank c = false) (s : List Char) :
    dropInlineBlanks (c :: s) = c :: s := List.dropWhile_cons_of_neg (by simp [h])

theorem readAssigned_written (h : l.WellFormed) (rest : List Char) :
    readAssigned (' ' :: '=' :: ' ' :: (l.writeValue ++ '\n' :: rest)) =
      .ok (some l.value, '\n' :: rest) := by
  have hread : dropInlineBlanks (' ' :: (l.writeValue ++ '\n' :: rest)) =
      l.writeValue ++ '\n' :: rest ∧
      readValue? (l.writeValue ++ '\n' :: rest) = some (l.value, '\n' :: rest) := by
    unfold Line.writeValue
    split
    · exact ⟨rfl, readValue?_quoted h.one_line rest⟩
    · rename_i hkey
      obtain ⟨hne, hword⟩ := h.word hkey
      refine ⟨?_, readValue?_word hne hword rest⟩
      cases hw : l.value.toList with
      | nil => exact absurd (by simpa using hw) hne
      | cons c w =>
        have hc := hword c (by simp [hw])
        exact dropInlineBlanks_cons_of_not (isPlain_of_isAlpha hc).not_inline _
  have heq : dropInlineBlanks (' ' :: '=' :: ' ' :: (l.writeValue ++ '\n' :: rest)) =
      '=' :: ' ' :: (l.writeValue ++ '\n' :: rest) := rfl
  unfold readAssigned
  simp only [heq, hread]

theorem keyChars_knownKeys : ∀ key ∈ knownKeys,
    key.toList.head?.any Char.isAlpha = true ∧ key.toList.all isKeyChar = true := by
  decide +kernel

theorem readKey?_known (h : key ∈ knownKeys) (rest : List Char) :
    readKey? (skipFiller false ('\n' :: '\t' :: (key.toList ++ ' ' :: rest))) =
      some (key.toList, ' ' :: rest) := by
  obtain ⟨hhead, hall⟩ := keyChars_knownKeys key h
  cases hk : key.toList with
  | nil => simp [hk] at hhead
  | cons c k =>
    have hc : c.isAlpha = true := by simpa [hk] using hhead
    have hkey : ∀ x ∈ k, isKeyChar x = true := by
      intro x hx
      exact List.all_eq_true.1 hall x (by simp [hk, hx])
    have hskip : skipFiller false ('\n' :: '\t' :: (c :: k ++ ' ' :: rest)) =
        c :: k ++ ' ' :: rest := by
      have hplain := isPlain_of_isAlpha hc
      have htab : isInlineBlank '\t' = true := rfl
      simp [skipFiller, htab, hplain.not_line, hplain.not_return, hplain.not_comment,
        hplain.not_inline]
    have htake : (k ++ ' ' :: rest).takeWhile isKeyChar = k := by
      rw [List.takeWhile_append_of_pos hkey, List.takeWhile_cons_of_neg (by decide)]
      exact List.append_nil k
    have hdrop : (k ++ ' ' :: rest).dropWhile isKeyChar = ' ' :: rest := by
      rw [List.dropWhile_append_of_pos hkey, List.dropWhile_cons_of_neg (by decide)]
    rw [hskip, List.cons_append]
    simp [readKey?, hc, htake, hdrop]

theorem readEntries_of_no_key {s : List Char} (h : readKey? (skipFiller false s) = none) :
    readEntries s = .ok ([], skipFiller false s) := by
  rw [readEntries]
  split
  · rfl
  · rename_i h'
    rw [h] at h'
    cases h'

theorem readEntries_cons {s t r rest : List Char} {k : List Char} {v : Option String}
    {es : List Entry} (hk : readKey? (skipFiller false s) = some (k, t))
    (hv : readAssigned t = .ok (v, r)) (hr : readEntries r = .ok (es, rest)) :
    readEntries s = .ok (⟨String.ofList k, v⟩ :: es, rest) := by
  rw [readEntries]
  split
  · simp_all
  · rename_i hk'
    rw [hk] at hk'
    cases hk'
    split
    · simp_all
    · rename_i hv'
      rw [hv] at hv'
      cases hv'
      rw [hr]

theorem readEntries_written {ls : List Line} (h : ∀ l ∈ ls, l.WellFormed) {rest : List Char}
    (hrest : rest = [] ∨ ∃ r, rest = '[' :: r) :
    readEntries ('\n' :: (ls.flatMap Line.write ++ rest)) = .ok (ls.map Line.entry, rest) := by
  induction ls with
  | nil =>
    -- Reading ends at the next header, or at the end of the text.
    have hskip : skipFiller false ('\n' :: rest) = rest := by
      rcases hrest with rfl | ⟨r, rfl⟩ <;> simp [skipFiller, isInlineBlank]
    have hnone : readKey? rest = none := by
      rcases hrest with rfl | ⟨r, rfl⟩ <;> simp [readKey?]
    change readEntries ('\n' :: rest) = _
    rw [readEntries_of_no_key (hskip.symm ▸ hnone), hskip]
    rfl
  | cons l ls ih =>
    obtain ⟨hl, hls⟩ := List.forall_mem_cons.1 h
    have hshape : '\n' :: ((l :: ls).flatMap Line.write ++ rest) =
        '\n' :: '\t' :: (l.key.toList ++ ' ' :: '=' :: ' ' :: (l.writeValue ++
          '\n' :: (ls.flatMap Line.write ++ rest))) := by
      simp [Line.write]
    rw [hshape, readEntries_cons (readKey?_known hl.known _) (readAssigned_written hl _) (ih hls),
      String.ofList_toList]
    rfl

/-! ### Sections -/

def writeHeader (name : String) : List Char :=
  '[' :: 'm' :: 'o' :: 'd' :: 'u' :: 'l' :: 'e' :: ' ' :: (quoted name ++ [']', '\n'])

theorem readHeaderEnd?_label {name l t r : List Char} (h : readLabel? t = some (l, ']' :: r)) :
    readHeaderEnd? name (' ' :: '"' :: t) =
      some (⟨String.ofList name, some (String.ofList l)⟩, r) := by
  have hquote : dropInlineBlanks ('"' :: t) = '"' :: t := dropInlineBlanks_cons_of_not rfl t
  have hblank : isInlineBlank ' ' = true := rfl
  simp [readHeaderEnd?, hblank, hquote, h]

theorem readHeader?_written {name : String} (h : ∀ c ∈ name.toList, c ≠ '\n' ∧ c ≠ '\x00')
    (rest : List Char) :
    readHeader? (writeHeader name ++ rest) = some (⟨"module", some name⟩, '\n' :: rest) := by
  have hshape : writeHeader name ++ rest = '[' :: 'm' :: 'o' :: 'd' :: 'u' :: 'l' :: 'e' :: ' ' ::
      '"' :: (escape name.toList ++ '"' :: ']' :: '\n' :: rest) := by
    simp [writeHeader, quoted]
  have hname : ∀ t, ('m' :: 'o' :: 'd' :: 'u' :: 'l' :: 'e' :: ' ' :: t).takeWhile isNameChar =
      ['m', 'o', 'd', 'u', 'l', 'e'] ∧
      ('m' :: 'o' :: 'd' :: 'u' :: 'l' :: 'e' :: ' ' :: t).dropWhile isNameChar = ' ' :: t := by
    intro t
    exact ⟨rfl, rfl⟩
  rw [hshape, readHeader?]
  simp only [hname]
  rw [readHeaderEnd?_label (readLabel?_escape h _), String.ofList_toList]

theorem readSections_nil : readSections [] = .ok ([], []) := by
  rw [readSections]
  rfl

theorem readSections_cons {s t r rest : List Char} {hd : Header} {es : List Entry}
    {ss : List Section} (hh : readHeader? s = some (hd, t)) (he : readEntries t = .ok (es, r))
    (hr : readSections r = .ok (ss, rest)) :
    readSections s = .ok (Section.ofHeader hd es :: ss, rest) := by
  rw [readSections]
  split
  · simp_all
  · rename_i hh'
    rw [hh] at hh'
    cases hh'
    split
    · simp_all
    · rename_i he'
      rw [he] at he'
      cases he'
      rw [hr]

/-- A header with a label, and the lines under it. -/
structure Block where
  label : String
  lines : List Line
  deriving Repr, DecidableEq

namespace Block

def write (b : Block) : List Char := writeHeader b.label ++ b.lines.flatMap Line.write

def toSection (b : Block) : Section := ⟨"module", some b.label, b.lines.map Line.entry⟩

structure WellFormed (b : Block) : Prop where
  label : ∀ c ∈ b.label.toList, c ≠ '\n' ∧ c ≠ '\x00'
  lines : ∀ l ∈ b.lines, l.WellFormed

end Block

variable {bs : List Block}

theorem begins_write (bs : List Block) :
    bs.flatMap Block.write = [] ∨ ∃ r, bs.flatMap Block.write = '[' :: r := by
  cases bs with
  | nil => exact .inl rfl
  | cons b bs => exact .inr ⟨_, rfl⟩

theorem readSections_written (h : ∀ b ∈ bs, b.WellFormed) :
    readSections (bs.flatMap Block.write) = .ok (bs.map Block.toSection, []) := by
  induction bs with
  | nil => exact readSections_nil
  | cons b bs ih =>
    obtain ⟨hb, hbs⟩ := List.forall_mem_cons.1 h
    rw [List.flatMap_cons, Block.write, List.append_assoc]
    exact readSections_cons (readHeader?_written hb.label _)
      (readEntries_written hb.lines (begins_write bs)) (ih hbs)

/-- Nothing stands before the first section. -/
theorem readText_of_readSections {s : List Char} {ss : List Section}
    (hs : s = [] ∨ ∃ r, s = '[' :: r) (h : readSections s = .ok (ss, [])) :
    readText s = .ok ss := by
  rcases hs with rfl | ⟨r, rfl⟩
  · rw [readSections_nil] at h
    cases h
    rfl
  · have hskip : skipFiller false ('[' :: r) = '[' :: r := by
      simp [skipFiller, isInlineBlank]
    rw [readText, hskip]
    rw [readSections] at h
    split at h
    · cases h
    · rename_i hd t hh
      simp only [hh]
      split at h
      · cases h
      · rename_i es r' he
        simp only [he]
        split at h
        · cases h
        · rename_i ss' rest hr
          cases h
          rw [hr]

theorem parse_written (source : String) (h : ∀ b ∈ bs, b.WellFormed) :
    parse source (String.ofList (bs.flatMap Block.write)) =
      .ok ⟨source, bs.map Block.toSection⟩ := by
  have hmark : dropByteOrderMark (bs.flatMap Block.write) = bs.flatMap Block.write := by
    rcases begins_write bs with hs | ⟨r, hs⟩ <;> rw [hs] <;> rfl
  have hread := readText_of_readSections (begins_write bs) (readSections_written h)
  rw [parse, String.toList_ofList, readSectionList, hmark, hread]

end ModuleGraph.Definitions
