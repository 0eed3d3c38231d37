import ModuleGraph.Proofs.WrittenText

/-!
# Where the keys of a text stand

The keys that a reader of a definition text finds, each with the text behind it. The entries are
those that these texts tell, and each key stands in the text where it is found. A key without `=`
has a blank, a line end, a comment, the next header or the end of the text behind it.
-/

namespace ModuleGraph.Definitions

open Text (isInlineBlank dropInlineBlanks dropByteOrderMark)

variable {s t r rest : List Char} {key : List Char} {value : Option String} {es : List Entry}

structure KeyAt where
  key : String
  /-- The text behind the key. -/
  after : List Char
  deriving Repr, DecidableEq

structure SectionAt where
  header : Header
  keys : List KeyAt
  deriving Repr, DecidableEq

namespace KeyAt

/-- The entry that is read at the key. -/
def entry (k : KeyAt) : Entry where
  key := k.key
  value :=
    match readAssigned k.after with
    | .ok (value, _) => value
    | .error _ => none

/-- No `=` follows the key, with or without blanks before it. -/
def IsBare (k : KeyAt) : Prop := (dropInlineBlanks k.after).head? ≠ some '='

/-- A blank or a tab follows the key. -/
def IsSpaced (k : KeyAt) : Prop := k.after.head?.any isInlineBlank = true

instance (k : KeyAt) : Decidable k.IsBare := inferInstanceAs (Decidable (_ ≠ _))

instance (k : KeyAt) : Decidable k.IsSpaced := inferInstanceAs (Decidable (_ = true))

end KeyAt

def SectionAt.toSection (s : SectionAt) : Section :=
  .ofHeader s.header (s.keys.map KeyAt.entry)

/-- The keys of the entries that a text begins with. -/
def keysIn (s : List Char) : List KeyAt :=
  match _ : readKey? (skipFiller false s) with
  | none => []
  | some (key, t) =>
    match _ : readAssigned t with
    | .error _ => []
    | .ok (_, r) => ⟨String.ofList key, t⟩ :: keysIn r
termination_by s.length
decreasing_by
  have h1 := length_skipFiller false s
  have h2 := length_readKey? ‹readKey? _ = some _›
  have h3 := length_readAssigned ‹readAssigned _ = .ok _›
  omega

/-- The sections that a text begins with. -/
def sectionsIn (s : List Char) : List SectionAt :=
  match _ : readHeader? s with
  | none => []
  | some (h, t) =>
    match _ : readEntries t with
    | .error _ => []
    | .ok (_, r) => ⟨h, keysIn t⟩ :: sectionsIn r
termination_by s.length
decreasing_by
  have h1 := length_readHeader? ‹readHeader? _ = some _›
  have h2 := length_readEntries ‹readEntries _ = .ok _›
  omega

def layout (text : String) : List SectionAt :=
  sectionsIn (skipFiller false (dropByteOrderMark text.toList))

theorem keysIn_nil (h : readKey? (skipFiller false s) = none) : keysIn s = [] := by
  rw [keysIn]
  split
  · rfl
  · simp_all

theorem keysIn_cons (hk : readKey? (skipFiller false s) = some (key, t))
    (ha : readAssigned t = .ok (value, r)) :
    keysIn s = ⟨String.ofList key, t⟩ :: keysIn r := by
  rw [keysIn]
  split
  · simp_all
  · rename_i hk'
    rw [hk] at hk'
    cases hk'
    split
    · simp_all
    · rename_i ha'
      rw [ha] at ha'
      cases ha'
      rfl

theorem sectionsIn_nil (h : readHeader? s = none) : sectionsIn s = [] := by
  rw [sectionsIn]
  split
  · rfl
  · simp_all

theorem sectionsIn_cons {h : Header} (hh : readHeader? s = some (h, t))
    (he : readEntries t = .ok (es, r)) : sectionsIn s = ⟨h, keysIn t⟩ :: sectionsIn r := by
  rw [sectionsIn]
  split
  · simp_all
  · rename_i hh'
    rw [hh] at hh'
    cases hh'
    split
    · simp_all
    · rename_i he'
      rw [he] at he'
      cases he'
      rfl

/-! ### The entries and the sections that are read -/

theorem map_entry_keysIn (h : readEntries s = .ok (es, rest)) :
    es = (keysIn s).map KeyAt.entry := by
  fun_induction readEntries s generalizing es
  case case1 s hk =>
    cases h
    rw [keysIn_nil hk]
    rfl
  case case4 s key t hk value r ha es' rest' hr ih =>
    cases h
    rw [keysIn_cons hk ha, List.map_cons, ← ih hr]
    simp [KeyAt.entry, ha]
  all_goals cases h

theorem map_toSection_sectionsIn {ss : List Section} (h : readSections s = .ok (ss, rest)) :
    ss = (sectionsIn s).map SectionAt.toSection := by
  fun_induction readSections s generalizing ss
  case case1 s hh =>
    cases h
    rw [sectionsIn_nil hh]
    rfl
  case case4 s hd t hh es r he ss' rest' hr ih =>
    cases h
    rw [sectionsIn_cons hh he, List.map_cons, ← ih hr, SectionAt.toSection, ← map_entry_keysIn he]
  all_goals cases h

theorem readSections_of_readText {ss : List Section} (h : readText s = .ok ss) :
    readSections (skipFiller false s) = .ok (ss, []) := by
  unfold readText at h
  split at h
  · rename_i hs
    cases h
    rw [hs, readSections_nil]
  · rename_i c t hs
    rw [hs]
    split at h
    · cases h
    · rename_i hd u hh
      split at h
      · cases h
      · rename_i es r he
        split at h
        · cases h
        · rename_i ss' hr
          cases h
          exact readSections_cons hh he hr
        · cases h

/-! ### Where reading goes on -/

theorem skipFiller_suffix (inComment : Bool) (s : List Char) : skipFiller inComment s <:+ s := by
  fun_induction skipFiller inComment s
  case case1 | case7 => exact List.suffix_rfl
  case case2 ih | case4 ih | case5 ih | case6 ih => exact ih.trans (List.suffix_cons _ _)
  case case3 ih => exact ih.trans ((List.suffix_cons _ _).trans (List.suffix_cons _ _))

theorem eq_append_of_readKey? (h : readKey? s = some (key, t)) :
    s = key ++ t ∧ ∀ c ∈ t.head?, isKeyChar c = false := by
  cases s with
  | nil => cases h
  | cons c s =>
    simp only [readKey?, Option.ite_none_right_eq_some, Option.some.injEq, Prod.mk.injEq] at h
    obtain ⟨-, rfl, rfl⟩ := h
    refine ⟨by simp, fun c hc => ?_⟩
    have hstop := List.head?_dropWhile_not isKeyChar s
    rw [Option.mem_def.1 hc] at hstop
    exact hstop

/-- The last line and the text after it end the text that is read. -/
def EndsIn (s : List Char) (v : List (List Char) × List Char) : Prop :=
  ∃ front last, v.1 = front ++ [last] ∧ last ++ v.2 <:+ s ∧ (front = [] → last ++ v.2 = s)

def lineJoins : List (List Char) := [['\\', '\n'], ['\\', '\r', '\n']]

/-- The last line is the only one, or a join stands before it. -/
def LastLine (s : List Char) (v : List (List Char) × List Char) : Prop :=
  ∃ front last, v.1 = front ++ [last] ∧
    (front = [] ∧ last ++ v.2 = s ∨ front ≠ [] ∧ ∃ join ∈ lineJoins, join ++ (last ++ v.2) <:+ s)

theorem LastLine.onFirst {v : List (List Char) × List Char} (h : LastLine s v) (cs : List Char) :
    LastLine (cs ++ s) (onFirst cs v) := by
  obtain ⟨lines, after⟩ := v
  obtain ⟨front, last, rfl, ⟨rfl, hall⟩ | ⟨hne, join, hjoin, hsuffix⟩⟩ := h
  · have hs : (cs ++ last) ++ after = cs ++ s := by
      rw [List.append_assoc]
      exact congrArg (cs ++ ·) hall
    exact ⟨[], cs ++ last, rfl, .inl ⟨rfl, hs⟩⟩
  · obtain ⟨l, front, rfl⟩ := List.exists_cons_of_ne_nil hne
    have hs := hsuffix.trans (List.suffix_append cs s)
    exact ⟨(cs ++ l) :: front, last, rfl, .inr ⟨List.cons_ne_nil _ _, join, hjoin, hs⟩⟩

theorem LastLine.next {v : List (List Char) × List Char} {join : List Char} (h : LastLine s v)
    (hjoin : join ∈ lineJoins) : LastLine (join ++ s) ([] :: v.1, v.2) := by
  obtain ⟨front, last, hlines, ⟨rfl, hall⟩ | ⟨-, join', hjoin', hsuffix⟩⟩ := h
  · refine ⟨[[]], last, by simp [hlines], .inr ⟨List.cons_ne_nil _ _, join, hjoin, ?_⟩⟩
    exact hall ▸ List.suffix_rfl
  · refine ⟨[] :: front, last, by simp [hlines], .inr ⟨List.cons_ne_nil _ _, join', hjoin', ?_⟩⟩
    exact hsuffix.trans (List.suffix_append join s)

theorem lastLine_valueLines {quoted : Bool} {v : List (List Char) × List Char}
    (h : valueLines quoted s = some v) : LastLine s v := by
  fun_induction valueLines quoted s generalizing v
  case case3 s ih =>
    obtain ⟨a, ha, rfl⟩ := Option.map_eq_some_iff.1 h
    have hjoin : ['\\', '\n'] ∈ lineJoins := List.mem_cons_self
    exact (ih ha).next hjoin
  case case4 s ih =>
    obtain ⟨a, ha, rfl⟩ := Option.map_eq_some_iff.1 h
    have hjoin : ['\\', '\r', '\n'] ∈ lineJoins := List.mem_cons_of_mem _ List.mem_cons_self
    exact (ih ha).next hjoin
  case case5 c s _ _ _ ih =>
    obtain ⟨a, ha, rfl⟩ := Option.map_eq_some_iff.1 h
    exact (ih ha).onFirst ['\\', c]
  case case8 ih | case12 ih =>
    obtain ⟨a, ha, rfl⟩ := Option.map_eq_some_iff.1 h
    exact (ih ha).onFirst [_]
  case case2 | case10 | case11 =>
    cases h
    exact ⟨[], [], rfl, .inl ⟨rfl, rfl⟩⟩
  all_goals simp_all

theorem endsIn_valueLines {quoted : Bool} {v : List (List Char) × List Char}
    (h : valueLines quoted s = some v) : EndsIn s v := by
  obtain ⟨front, last, hlines, ⟨rfl, hall⟩ | ⟨hne, join, -, hsuffix⟩⟩ := lastLine_valueLines h
  · exact ⟨[], last, hlines, hall ▸ List.suffix_rfl, fun _ => hall⟩
  · refine ⟨front, last, hlines, ?_, fun h => absurd h hne⟩
    exact (List.suffix_append join _).trans hsuffix

theorem readValue?_suffix {v : String} (h : readValue? s = some (v, r)) : r <:+ s := by
  obtain ⟨w, hw, he⟩ := Option.map_eq_some_iff.1 h
  obtain ⟨front, last, hlines, hsuffix, -⟩ := endsIn_valueLines hw
  have hlast : w.1.getLast?.getD [] = last := by simp [hlines]
  simp only [hlast] at he
  split at he
  · cases he
    exact List.nil_suffix
  · cases he
    -- The blanks cut from the last line stand before the text after it.
    refine List.IsSuffix.trans ⟨dropEndBlanks last, ?_⟩ hsuffix
    rw [← List.append_assoc, endBlanks_append]

theorem readAssigned_suffix (h : readAssigned s = .ok (value, r)) : r <:+ s := by
  have hblanks : ∀ s, dropInlineBlanks s <:+ s := fun s => List.dropWhile_suffix isInlineBlank
  unfold readAssigned at h
  split at h
  · rename_i t ht
    split at h
    · rename_i v r' hv
      cases h
      have ht' : t <:+ s := (List.suffix_cons '=' t).trans (ht ▸ hblanks s)
      exact (readValue?_suffix hv).trans ((hblanks t).trans ht')
    · cases h
  · cases h
    exact hblanks s

theorem readLabel?_suffix {l : List Char} (h : readLabel? s = some (l, r)) : r <:+ s := by
  fun_induction readLabel? s generalizing l
  case case1 =>
    cases h
    exact List.suffix_cons _ _
  case case3 ih =>
    obtain ⟨a, ha, he⟩ := Option.map_eq_some_iff.1 h
    cases he
    exact (ih ha).trans ((List.suffix_cons _ _).trans (List.suffix_cons _ _))
  case case5 ih =>
    obtain ⟨a, ha, he⟩ := Option.map_eq_some_iff.1 h
    cases he
    exact (ih ha).trans (List.suffix_cons _ _)
  all_goals cases h

theorem readHeaderEnd?_suffix {name : List Char} {hd : Header}
    (h : readHeaderEnd? name s = some (hd, r)) : r <:+ s := by
  unfold readHeaderEnd? at h
  split at h
  · split at h
    · cases h
    · cases h
      exact List.suffix_cons _ _
  · rename_i c t _
    split at h
    · split at h
      · rename_i u hu
        have hu' : u <:+ c :: t := by
          have hblanks : dropInlineBlanks t <:+ t := List.dropWhile_suffix isInlineBlank
          rw [hu] at hblanks
          exact (List.suffix_cons _ _).trans (hblanks.trans (List.suffix_cons _ _))
        split at h
        · rename_i l r' hl
          cases h
          exact (List.suffix_cons _ _).trans ((readLabel?_suffix hl).trans hu')
        · cases h
      · cases h
    · cases h
  · cases h

theorem readHeader?_suffix {hd : Header} (h : readHeader? s = some (hd, r)) :
    r <:+ s ∧ ∃ t, s = '[' :: t := by
  unfold readHeader? at h
  split at h
  · rename_i s
    refine ⟨?_, s, rfl⟩
    split at h
    · cases h
    · have hname : s.dropWhile isNameChar <:+ s := List.dropWhile_suffix isNameChar
      exact (readHeaderEnd?_suffix h).trans (hname.trans (List.suffix_cons _ _))
  · cases h

/-! ### The keys stand in the text -/

theorem keysIn_suffix (h : readEntries s = .ok (es, rest)) :
    rest <:+ s ∧ ∀ k ∈ keysIn s, k.key.toList ++ k.after <:+ s := by
  fun_induction readEntries s generalizing es
  case case1 s hk =>
    cases h
    rw [keysIn_nil hk]
    exact ⟨skipFiller_suffix false s, fun k hk => absurd hk List.not_mem_nil⟩
  case case4 s key t hk value r ha es' rest' hr ih =>
    cases h
    obtain ⟨hrest, hkeys⟩ := ih hr
    have hkey : key ++ t <:+ s := by
      rw [← (eq_append_of_readKey? hk).1]
      exact skipFiller_suffix false s
    have hr' : r <:+ s :=
      (readAssigned_suffix ha).trans ((List.suffix_append key t).trans hkey)
    rw [keysIn_cons hk ha]
    refine ⟨hrest.trans hr', List.forall_mem_cons.2 ⟨?_, fun k hk => (hkeys k hk).trans hr'⟩⟩
    rw [String.toList_ofList]
    exact hkey
  all_goals cases h

theorem sectionsIn_suffix {ss : List Section} (h : readSections s = .ok (ss, rest)) :
    ∀ b ∈ sectionsIn s, ∀ k ∈ b.keys, k.key.toList ++ k.after <:+ s := by
  fun_induction readSections s generalizing ss
  case case1 s hh =>
    rw [sectionsIn_nil hh]
    exact fun b hb => absurd hb List.not_mem_nil
  case case4 s hd t hh es r he ss' rest' hr ih =>
    cases h
    have ht : t <:+ s := (readHeader?_suffix hh).1
    obtain ⟨hrest, hkeys⟩ := keysIn_suffix he
    rw [sectionsIn_cons hh he]
    refine List.forall_mem_cons.2 ⟨fun k hk => (hkeys k hk).trans ht, fun b hb k hk => ?_⟩
    exact (ih hr b hb k hk).trans (hrest.trans ht)
  all_goals cases h

/-! ### What follows a key without a value -/

/-- The text goes on with a line end, a comment or a header, or ends. -/
def EndsKey (s : List Char) : Prop :=
  s = [] ∨ ∃ t, s = '\n' :: t ∨ s = '\r' :: '\n' :: t ∨ s = ';' :: t ∨ s = '#' :: t ∨ s = '[' :: t

theorem skipFiller_of_not_endsKey {c : Char} (hblank : isInlineBlank c = false)
    (h : ¬ EndsKey (c :: s)) : skipFiller false (c :: s) = c :: s := by
  have hcomment : c ≠ ';' ∧ c ≠ '#' := by
    refine ⟨?_, ?_⟩
    · rintro rfl
      exact h (.inr ⟨s, by simp⟩)
    · rintro rfl
      exact h (.inr ⟨s, by simp⟩)
  unfold skipFiller
  split
  · rename_i he
    cases he
  · rename_i t he
    exact absurd (.inr ⟨t, .inl he⟩) h
  · rename_i t he
    exact absurd (.inr ⟨t, .inr (.inl he)⟩) h
  · rename_i he
    cases he
    simp [hblank, hcomment]

theorem readAssigned_of_bare (h : (dropInlineBlanks s).head? ≠ some '=') :
    readAssigned s = .ok (if (dropInlineBlanks s).length = s.length then none else some "",
      dropInlineBlanks s) := by
  unfold readAssigned
  split
  · rename_i t ht
    exact absurd (by rw [ht]; rfl) h
  · rfl

namespace KeyAt

variable {k : KeyAt}

theorem dropInlineBlanks_after (h : ¬ k.IsSpaced) : dropInlineBlanks k.after = k.after := by
  unfold IsSpaced at h
  cases ha : k.after with
  | nil => rfl
  | cons c s =>
    exact dropInlineBlanks_cons_of_not (by simpa [ha] using h) s

theorem length_dropInlineBlanks_iff :
    (dropInlineBlanks k.after).length = k.after.length ↔ ¬ k.IsSpaced := by
  refine ⟨fun hlength hspaced => ?_, fun h => by rw [dropInlineBlanks_after h]⟩
  unfold IsSpaced at hspaced
  cases ha : k.after with
  | nil => simp [ha] at hspaced
  | cons c s =>
    have hblank : isInlineBlank c = true := by simpa [ha] using hspaced
    have hshort : (dropInlineBlanks (c :: s)).length ≤ s.length := by
      rw [dropInlineBlanks, List.dropWhile_cons_of_pos hblank]
      exact length_dropWhile_le isInlineBlank s
    rw [ha] at hlength
    rw [hlength, List.length_cons] at hshort
    omega

/-- A bare key has the empty value if a blank follows it, and else none. -/
theorem value_of_bare (h : k.IsBare) :
    k.entry.value = if k.IsSpaced then some "" else none := by
  rw [entry, readAssigned_of_bare h]
  by_cases hspaced : k.IsSpaced
  · simp [hspaced, length_dropInlineBlanks_iff]
  · simp [hspaced, length_dropInlineBlanks_iff]

end KeyAt

/-- Where no line ends, what follows a key neither skips to another key nor begins one. -/
theorem readEntries_of_not_endsKey {c : Char} (hkey : isKeyChar c = false)
    (hblank : isInlineBlank c = false) (h : ¬ EndsKey (c :: s)) :
    readEntries (c :: s) = .ok ([], c :: s) := by
  have hskip := skipFiller_of_not_endsKey hblank h
  have hnone : readKey? (skipFiller false (c :: s)) = none := by
    have halpha : c.isAlpha = false := by
      simp only [isKeyChar, Char.isAlphanum, Bool.or_eq_false_iff] at hkey
      exact hkey.1.1
    rw [hskip]
    simp [readKey?, halpha]
  rw [readEntries_of_no_key hnone, hskip]

/-- Behind a bare key without a blank either the line ends or the entries do. -/
theorem endsKey_of_bare (h : readEntries s = .ok (es, rest)) :
    ∀ k ∈ keysIn s, k.IsBare → k.IsSpaced ∨ EndsKey k.after ∨ k.after = rest := by
  fun_induction readEntries s generalizing es
  case case1 s hk =>
    rw [keysIn_nil hk]
    exact fun k hk => absurd hk List.not_mem_nil
  case case4 s key t hk value r ha es' rest' hr ih =>
    cases h
    rw [keysIn_cons hk ha]
    refine List.forall_mem_cons.2 ⟨fun hbare => ?_, ih hr⟩
    by_cases hspaced : KeyAt.IsSpaced ⟨String.ofList key, t⟩
    · exact .inl hspaced
    refine .inr ?_
    have ht : dropInlineBlanks t = t := KeyAt.dropInlineBlanks_after hspaced
    rw [readAssigned_of_bare hbare, ht] at ha
    cases ha
    cases t with
    | nil => exact .inl (.inl rfl)
    | cons c u =>
      by_cases hend : EndsKey (c :: u)
      · exact .inl hend
      · have hkey : isKeyChar c = false := (eq_append_of_readKey? hk).2 c rfl
        have hblank : isInlineBlank c = false := Bool.eq_false_iff.2 hspaced
        rw [readEntries_of_not_endsKey hkey hblank hend] at hr
        cases hr
        exact .inr rfl
  all_goals cases h

theorem readSections_of_no_header (h : readHeader? s = none) : readSections s = .ok ([], s) := by
  rw [readSections]
  split
  · rfl
  · simp_all

/-- Where the whole text is read, a key has a line end, a comment, a header or the end behind it. -/
theorem endsKey_of_readSections {ss : List Section} (h : readSections s = .ok (ss, [])) :
    ∀ b ∈ sectionsIn s, ∀ k ∈ b.keys, k.IsBare → k.IsSpaced ∨ EndsKey k.after := by
  fun_induction readSections s generalizing ss
  case case1 s hh =>
    rw [sectionsIn_nil hh]
    exact fun b hb => absurd hb List.not_mem_nil
  case case4 s hd t hh es r he ss' rest' hr ih =>
    cases h
    have hrest : EndsKey r := by
      cases hnext : readHeader? r with
      | none =>
        rw [readSections_of_no_header hnext] at hr
        cases hr
        exact .inl rfl
      | some x =>
        obtain ⟨u, hu⟩ := (readHeader?_suffix hnext).2
        exact .inr ⟨u, by simp [hu]⟩
    rw [sectionsIn_cons hh he]
    refine List.forall_mem_cons.2 ⟨fun k hk hbare => ?_, ih hr⟩
    rcases endsKey_of_bare he k hk hbare with h | h | h
    · exact .inl h
    · exact .inr h
    · exact .inr (h ▸ hrest)
  all_goals cases h

/-! ### The layout of a text that is read -/

variable {source text : String} {d : Definitions}

theorem readSections_of_parse (h : parse source text = .ok d) :
    readSections (skipFiller false (dropByteOrderMark text.toList)) = .ok (d.sections, []) := by
  unfold parse at h
  split at h
  · rename_i ss hss
    cases h
    unfold readSectionList at hss
    split at hss
    · rename_i ss' hss'
      cases hss
      exact readSections_of_readText hss'
    · cases hss
  · cases h

theorem dropByteOrderMark_suffix (s : List Char) : dropByteOrderMark s <:+ s := by
  unfold dropByteOrderMark
  split
  · exact List.suffix_cons _ _
  · exact List.suffix_rfl

theorem sections_eq_layout (h : parse source text = .ok d) :
    d.sections = (layout text).map SectionAt.toSection :=
  map_toSection_sectionsIn (readSections_of_parse h)

/-- Every key stands in the text, and where it has no value something ends it. -/
theorem keys_of_layout (h : parse source text = .ok d) {b : SectionAt} (hb : b ∈ layout text)
    {k : KeyAt} (hk : k ∈ b.keys) :
    k.key.toList ++ k.after <:+ text.toList ∧ (k.IsBare → k.IsSpaced ∨ EndsKey k.after) := by
  have hread := readSections_of_parse h
  refine ⟨?_, endsKey_of_readSections hread b hb k hk⟩
  have hstart := (skipFiller_suffix false _).trans (dropByteOrderMark_suffix text.toList)
  exact (sectionsIn_suffix hread b hb k hk).trans hstart

end ModuleGraph.Definitions
