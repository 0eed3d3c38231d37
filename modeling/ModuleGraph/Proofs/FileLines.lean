import ModuleGraph.FileList
import ModuleGraph.Proofs.Directory

/-!
# Lines of a file list

A file list may be decoded line by line: no byte of a longer character is a line feed. Carriage
returns at the ends of lines say nothing, as they are blanks, and a line that holds no usable path
says nothing either. So names written one a line are read back, whatever ends the lines.
-/

namespace ModuleGraph

/-! ### Bytes -/

namespace Text

def feed : UInt8 := 10

theorem feed_notMem_utf8EncodeChar {c : Char} (hc : c ≠ '\n') : feed ∉ String.utf8EncodeChar c := by
  have hvalue : c.val.toNat ≠ 10 := fun h => hc (Char.ext (UInt32.toNat_inj.1 h))
  have hbyte : ∀ n : Nat, n < 256 → n ≠ 10 → feed ≠ UInt8.ofNat n := by
    intro n hn hne he
    have hnat := congrArg UInt8.toNat he
    rw [UInt8.toNat_ofNat_of_lt' hn] at hnat
    exact hne hnat.symm
  unfold String.utf8EncodeChar
  simp only
  split
  · rename_i h
    simpa using hbyte _ (by omega) hvalue
  · split
    · simp only [List.mem_cons, List.not_mem_nil, or_false, not_or]
      exact ⟨hbyte _ (by omega) (by omega), hbyte _ (by omega) (by omega)⟩
    · split
      · simp only [List.mem_cons, List.not_mem_nil, or_false, not_or]
        exact ⟨hbyte _ (by omega) (by omega), hbyte _ (by omega) (by omega),
          hbyte _ (by omega) (by omega)⟩
      · simp only [List.mem_cons, List.not_mem_nil, or_false, not_or]
        exact ⟨hbyte _ (by omega) (by omega), hbyte _ (by omega) (by omega),
          hbyte _ (by omega) (by omega), hbyte _ (by omega) (by omega)⟩

theorem utf8EncodeChar_feed : String.utf8EncodeChar '\n' = [feed] := by decide +kernel

theorem splitAt_eq_splitOn (sep : Char) (s : List Char) : splitAt sep s = s.splitOn sep := by
  induction s with
  | nil => rfl
  | cons c s ih =>
    rw [List.splitOn_cons_eq_if_modifyHead, splitAt, ih]
    by_cases h : c = sep
    · simp [h]
    · cases hs : s.splitOn sep with
      | nil => exact absurd hs (List.splitOn_ne_nil sep s)
      | cons p ps => simp [h]

theorem notMem_of_mem_splitAt {sep : Char} {s part : List Char} (h : part ∈ splitAt sep s) :
    sep ∉ part := by
  induction s generalizing part with
  | nil =>
    cases List.mem_singleton.1 h
    exact List.not_mem_nil
  | cons c s ih =>
    unfold splitAt at h
    split at h
    · rcases List.mem_cons.1 h with rfl | h
      · exact List.not_mem_nil
      · exact ih h
    · rename_i hc
      split at h
      · rename_i hs
        exact absurd hs (splitAt_ne_nil sep s)
      · rename_i p ps hs
        rw [hs] at ih
        rcases List.mem_cons.1 h with rfl | h
        · rw [List.mem_cons, not_or]
          exact ⟨fun he => hc he.symm, ih List.mem_cons_self⟩
        · exact ih (List.mem_cons_of_mem _ h)

theorem flatMap_intercalate {α β : Type} (f : α → List β) (sep : List α) (ls : List (List α)) :
    (sep.intercalate ls).flatMap f = (sep.flatMap f).intercalate (ls.map (List.flatMap f)) := by
  induction ls with
  | nil => rfl
  | cons l ls ih =>
    cases ls with
    | nil => simp
    | cons l' ls =>
      rw [List.intercalate_cons_cons, List.flatMap_append, List.flatMap_append, ih]
      simp [List.intercalate_cons_cons]

/-- The bytes of a text, cut at line feeds, are those of the parts of the text. -/
theorem splitOn_encoded (s : List Char) :
    (s.flatMap String.utf8EncodeChar).splitOn feed =
      (splitAt '\n' s).map (List.flatMap String.utf8EncodeChar) := by
  have hparts : s.flatMap String.utf8EncodeChar =
      [feed].intercalate ((splitAt '\n' s).map (List.flatMap String.utf8EncodeChar)) := by
    have hfeed : ['\n'].flatMap String.utf8EncodeChar = [feed] := utf8EncodeChar_feed
    rw [← hfeed, ← flatMap_intercalate, splitAt_eq_splitOn, List.intercalate_splitOn]
  rw [hparts]
  refine List.splitOn_intercalate feed ?_ (by simp [splitAt_ne_nil])
  intro line hline
  obtain ⟨part, hpart, rfl⟩ := List.mem_map.1 hline
  intro hmem
  obtain ⟨c, hc, hmem⟩ := List.mem_flatMap.1 hmem
  have hne : c ≠ '\n' := fun he => notMem_of_mem_splitAt hpart (he ▸ hc)
  exact feed_notMem_utf8EncodeChar hne hmem

theorem isValidUTF8_intercalate {ls : List (List UInt8)}
    (h : ∀ l ∈ ls, l.toByteArray.IsValidUTF8) :
    ([feed].intercalate ls).toByteArray.IsValidUTF8 := by
  induction ls with
  | nil => exact ByteArray.isValidUTF8_empty
  | cons l ls ih =>
    obtain ⟨hl, hls⟩ := List.forall_mem_cons.1 h
    cases ls with
    | nil => simpa using hl
    | cons l' ls =>
      have hfeed : [feed].toByteArray.IsValidUTF8 := by
        rw [← utf8EncodeChar_feed]
        exact Char.isValidUTF8_toByteArray_utf8EncodeChar
      rw [List.intercalate_cons_cons, List.toByteArray_append, List.toByteArray_append]
      exact (hl.append hfeed).append (ih hls)

/-- Bytes are a text exactly if each of their lines is one. -/
theorem isValidUTF8_iff_lines (bytes : ByteArray) :
    bytes.IsValidUTF8 ↔ ∀ line ∈ bytes.data.toList.splitOn feed, line.toByteArray.IsValidUTF8 := by
  constructor
  · rintro ⟨s, rfl⟩ line hline
    rw [List.utf8Encode, List.data_toByteArray, List.toList_toArray, splitOn_encoded] at hline
    obtain ⟨part, -, rfl⟩ := List.mem_map.1 hline
    exact ⟨part, rfl⟩
  · intro h
    have hvalid := isValidUTF8_intercalate h
    rw [List.intercalate_splitOn] at hvalid
    have hbytes : bytes.data.toList.toByteArray = bytes := by
      apply ByteArray.ext
      rw [List.data_toByteArray, Array.toArray_toList]
    rwa [hbytes] at hvalid

theorem decode?_utf8Encode (s : List Char) :
    decode? (s.flatMap String.utf8EncodeChar).toByteArray = some (String.ofList s) := by
  unfold decode? String.fromUTF8?
  exact dif_pos ⟨s, rfl⟩

theorem toUTF8_of_decode? {bytes : ByteArray} {text : String} (h : decode? bytes = some text) :
    text.toUTF8 = bytes := by
  unfold decode? String.fromUTF8? at h
  split at h
  · cases h
    rfl
  · cases h

theorem decode?_eq_none_iff {bytes : ByteArray} : decode? bytes = none ↔ ¬ bytes.IsValidUTF8 := by
  unfold decode? String.fromUTF8?
  split <;> simp [*]

/-! ### Lines -/

theorem trimChars_infix (s : List Char) : trimChars s <:+: s := by
  have hstart : trimStartChars s <:+ s := List.dropWhile_suffix _
  have hend : trimChars s <+: trimStartChars s := by
    rw [trimChars, trimEndChars, ← List.reverse_suffix, List.reverse_reverse]
    exact List.dropWhile_suffix _
  exact hend.isInfix.trans hstart.isInfix

theorem trimChars_concat {c : Char} (hc : isBlank c = true) (s : List Char) :
    trimChars (s ++ [c]) = trimChars s := by
  have hend : ∀ s, trimEndChars (s ++ [c]) = trimEndChars s := by
    intro s
    simp [trimEndChars, trimStartChars, hc]
  have hstart : trimStartChars (s ++ [c]) =
      if (trimStartChars s).isEmpty then [] else trimStartChars s ++ [c] := by
    rw [trimStartChars, List.dropWhile_append, List.dropWhile_cons_of_pos hc]
    rfl
  rw [trimChars, hstart]
  split
  · rename_i hempty
    rw [trimChars, List.isEmpty_iff.1 hempty]
  · exact hend _

theorem splitAt_eq_dropLast_append (s : List Char) :
    splitAt '\n' s = (splitAt '\n' s).dropLast ++ [(splitAt '\n' s).getLast?.getD []] := by
  have hne := splitAt_ne_nil '\n' s
  rw [List.getLast?_eq_some_getLast hne, Option.getD_some, List.dropLast_concat_getLast]

theorem newline_notMem_of_mem_lines {s line : List Char} (h : line ∈ lines s) : '\n' ∉ line := by
  rcases List.mem_append.1 h with h | h
  · obtain ⟨part, hpart, rfl⟩ := List.mem_map.1 h
    have hpart' := notMem_of_mem_splitAt (List.dropLast_subset _ hpart)
    unfold dropReturn
    split
    · exact fun hmem => hpart' (List.dropLast_subset _ hmem)
    · exact hpart'
  · split at h
    · cases h
    · apply notMem_of_mem_splitAt
      rw [splitAt_eq_dropLast_append, List.mem_singleton.1 h]
      exact List.mem_append_right _ List.mem_cons_self

end Text

/-! ### Paths -/

namespace Path

theorem suffix_dropHere (s : List Char) : dropHere s <:+ s := by
  fun_induction dropHere s with
  | case1 s ih => exact ih.trans ((List.suffix_cons _ _).trans (List.suffix_cons _ _))
  | case2 s _ => exact List.suffix_rfl

theorem normalizeChars_infix {s p : List Char} (h : normalizeChars s = some p) : p <:+: s := by
  rw [(normalizeChars_eq_some h).1]
  exact (prefix_dropEndSeparators _).isInfix.trans
    ((suffix_dropHere _).isInfix.trans (Text.trimChars_infix s))

theorem normalizeChars_concat {c : Char} (hc : Text.isBlank c = true) (s : List Char) :
    normalizeChars (s ++ [c]) = normalizeChars s := by
  rw [normalizeChars, Text.trimChars_concat hc, normalizeChars]

theorem normalizeChars_dropReturn (s : List Char) :
    normalizeChars (Text.dropReturn s) = normalizeChars s := by
  unfold Text.dropReturn
  split
  · rename_i hlast
    conv_rhs => rw [← List.dropLast_append_getLast? _ hlast]
    exact (normalizeChars_concat (by decide) s.dropLast).symm
  · rfl

/-- Some `./`, then perhaps a `.`, and then separators. -/
def NamesNothing (s : List Char) : Prop :=
  ∃ n dot m, (dot = [] ∨ dot = ['.']) ∧
    s = (List.replicate n ['.', separator]).flatten ++ (dot ++ List.replicate m separator)

theorem dropEndSeparators_append (s : List Char) (n : Nat) :
    dropEndSeparators (s ++ List.replicate n separator) = dropEndSeparators s := by
  have hall : ∀ c ∈ List.replicate n separator, (c == separator) = true := by
    intro c hc
    simp [List.eq_of_mem_replicate hc]
  rw [dropEndSeparators, List.reverse_append, List.reverse_replicate,
    List.dropWhile_append_of_pos hall, dropEndSeparators]

theorem exists_dropEndSeparators_append (s : List Char) :
    ∃ n, s = dropEndSeparators s ++ List.replicate n separator := by
  have hcut := List.takeWhile_append_dropWhile (p := (· == separator)) (l := s.reverse)
  have hall : s.reverse.takeWhile (· == separator) =
      List.replicate (s.reverse.takeWhile (· == separator)).length separator := by
    refine List.eq_replicate_of_mem fun c hc => ?_
    simpa using List.all_eq_true.1 List.all_takeWhile c hc
  refine ⟨(s.reverse.takeWhile (· == separator)).length, ?_⟩
  have hs := congrArg List.reverse hcut
  rw [List.reverse_append, List.reverse_reverse, hall, List.reverse_replicate] at hs
  simpa [dropEndSeparators] using hs.symm

theorem dropHere_append (n : Nat) (s : List Char) :
    dropHere ((List.replicate n ['.', separator]).flatten ++ s) = dropHere s := by
  induction n with
  | zero => rfl
  | succ n ih => exact ih

theorem exists_append_dropHere (s : List Char) :
    ∃ n, s = (List.replicate n ['.', separator]).flatten ++ dropHere s := by
  fun_induction dropHere s with
  | case1 s ih =>
    obtain ⟨n, hn⟩ := ih
    exact ⟨n + 1, congrArg (['.', '/'] ++ ·) hn⟩
  | case2 s _ => exact ⟨0, rfl⟩

theorem dropHere_replicate (n : Nat) :
    dropHere (List.replicate n separator) = List.replicate n separator := by
  cases n <;> rfl

/-- A line holds no usable path if it says nothing or names the root. -/
theorem normalizeChars_eq_none_iff {s : List Char} :
    normalizeChars s = none ↔ NamesNothing (Text.trimChars s) := by
  have hempty : normalizeChars s = none ↔
      dropEndSeparators (dropHere (Text.trimChars s)) = [] ∨
        dropEndSeparators (dropHere (Text.trimChars s)) = ['.'] := by
    unfold normalizeChars
    split <;> simp_all
  rw [hempty]
  constructor
  · intro h
    obtain ⟨n, hn⟩ := exists_append_dropHere (Text.trimChars s)
    obtain ⟨m, hm⟩ := exists_dropEndSeparators_append (dropHere (Text.trimChars s))
    exact ⟨n, _, m, h, hm ▸ hn⟩
  · rintro ⟨n, dot, m, hdot, hs⟩
    have hseparators : dropEndSeparators (List.replicate m separator) = [] :=
      dropEndSeparators_append [] m
    rw [hs, dropHere_append]
    rcases hdot with rfl | rfl
    · rw [List.nil_append, dropHere_replicate, hseparators]
      exact .inl rfl
    · cases m with
      | zero => exact .inr rfl
      | succ m =>
        have hdot : dropHere (['.'] ++ List.replicate (m + 1) separator) =
            List.replicate m separator := dropHere_replicate m
        rw [hdot]
        exact .inl (dropEndSeparators_append [] m)

end Path

/-! ### File lists -/

namespace FileList

/-- How lines end. -/
inductive LineEnd
  | feed
  | returnFeed
  deriving Repr, DecidableEq

def LineEnd.text : LineEnd → String
  | feed => "\n"
  | returnFeed => "\r\n"

/-- Names one a line; the last line may be left without an end. -/
def listing (e : LineEnd) (closed : Bool) (names : List String) : String :=
  e.text.intercalate names ++ if closed then e.text else ""

def encoded (e : LineEnd) (closed : Bool) (names : List String) : ByteArray :=
  (listing e closed names).toUTF8

/-- A return cut off a line is a blank that normalisation would have cut off, and what follows the
last line feed is a line unless it says nothing. -/
theorem ofChars_eq (s : List Char) :
    ofChars s = (Text.splitAt '\n' s).filterMap fun line =>
      (Path.normalizeChars line).map String.ofList := by
  rw [ofChars, Text.lines]
  conv_rhs => rw [Text.splitAt_eq_dropLast_append]
  simp only [List.filterMap_append, List.filterMap_map, Function.comp_def,
    Path.normalizeChars_dropReturn]
  congr 1
  split
  · rename_i hlast
    rw [hlast]
    rfl
  · rfl

theorem ofChars_of_notMem {s : String} (h : '\n' ∉ s.toList) :
    ofChars s.toList = (Path.normalize s).toList := by
  rw [ofChars_eq, Text.splitAt_eq_splitOn, List.splitOn_eq_singleton h,
    List.filterMap_eq_flatMap_toList, List.flatMap_singleton, Path.normalize]

theorem ofChars_append_line {s : List Char} (h : '\n' ∉ s) (rest : List Char) :
    ofChars (s ++ '\n' :: rest) =
      ((Path.normalizeChars s).map String.ofList).toList ++ ofChars rest := by
  rw [ofChars_eq, ofChars_eq, Text.splitAt_eq_splitOn, Text.splitAt_eq_splitOn,
    List.splitOn_append_cons_self_of_not_mem h, List.filterMap_eq_flatMap_toList,
    List.filterMap_eq_flatMap_toList, List.flatMap_cons]

theorem ofChars_append_end {s : String} (h : '\n' ∉ s.toList) (e : LineEnd) (rest : List Char) :
    ofChars (s.toList ++ e.text.toList ++ rest) = (Path.normalize s).toList ++ ofChars rest := by
  cases e with
  | feed =>
    have hshape : s.toList ++ LineEnd.feed.text.toList ++ rest = s.toList ++ '\n' :: rest := by
      simp [LineEnd.text]
    rw [hshape, ofChars_append_line h, Path.normalize]
  | returnFeed =>
    have hshape : s.toList ++ LineEnd.returnFeed.text.toList ++ rest =
        (s.toList ++ ['\r']) ++ '\n' :: rest := by
      simp [LineEnd.text]
    rw [hshape, ofChars_append_line (by simp [h]), Path.normalizeChars_concat (by decide),
      Path.normalize]

theorem ofArguments_cons (s : String) (names : List String) :
    ofArguments (s :: names) = (Path.normalize s).toList ++ ofArguments names := by
  rw [ofArguments, ofArguments, List.filterMap_eq_flatMap_toList,
    List.filterMap_eq_flatMap_toList, List.flatMap_cons]

/-- Names written one a line are read back as if they had been given one by one. -/
theorem ofChars_listing {names : List String} (h : ∀ n ∈ names, '\n' ∉ n.toList) (e : LineEnd)
    (closed : Bool) : ofChars (listing e closed names).toList = ofArguments names := by
  induction names with
  | nil => cases e <;> cases closed <;> decide
  | cons s names ih =>
    obtain ⟨hs, hnames⟩ := List.forall_mem_cons.1 h
    rw [ofArguments_cons, ← ih hnames]
    cases names with
    | nil =>
      have hnone : ofChars (listing e closed []).toList = [] := by
        cases e <;> cases closed <;> decide
      rw [hnone, List.append_nil]
      cases closed with
      | false =>
        have hshape : listing e false [s] = s := by simp [listing]
        rw [hshape, ofChars_of_notMem hs]
      | true =>
        have hshape : (listing e true [s]).toList = s.toList ++ e.text.toList ++ [] := by
          simp [listing]
        rw [hshape, ofChars_append_end hs]
        exact List.append_nil _
    | cons s' names =>
      have hshape : (listing e closed (s :: s' :: names)).toList =
          s.toList ++ e.text.toList ++ (listing e closed (s' :: names)).toList := by
        simp [listing, String.intercalate_cons_cons]
      rw [hshape, ofChars_append_end hs]

theorem read?_encoded {names : List String} (h : ∀ n ∈ names, '\n' ∉ n.toList) (e : LineEnd)
    (closed : Bool) : read? (encoded e closed names) = some (ofArguments names) := by
  rw [read?, encoded, Text.decode?_toUTF8, Option.map_some, ofChars_listing h]

/-! ### One line after the other -/

theorem mapM_eq_some_map {α β : Type} {f : α → Option β} {g : α → β} {l : List α}
    (h : ∀ a ∈ l, f a = some (g a)) : l.mapM f = some (l.map g) := by
  induction l with
  | nil => rfl
  | cons a l ih =>
    obtain ⟨ha, hl⟩ := List.forall_mem_cons.1 h
    rw [List.mapM_cons, ha, ih hl]
    rfl

theorem mapM_eq_none_of_mem {α β : Type} {f : α → Option β} {l : List α} {a : α} (ha : a ∈ l)
    (hf : f a = none) : l.mapM f = none := by
  induction l with
  | nil => cases ha
  | cons b l ih =>
    rw [List.mapM_cons]
    rcases List.mem_cons.1 ha with rfl | ha
    · rw [hf]
      rfl
    · rw [ih ha]
      cases f b <;> rfl

/-- The paths of a list as bytes, each line decoded when it is read. -/
def readEach? (bytes : ByteArray) : Option (List String) :=
  ((bytes.data.toList.splitOn Text.feed).mapM fun line => Text.decode? line.toByteArray).map
    (List.filterMap Path.normalize)

/-- Decoding line by line refuses the same lists and reads the same paths as decoding at once. -/
theorem read?_eq_readEach? (bytes : ByteArray) : read? bytes = readEach? bytes := by
  by_cases hvalid : bytes.IsValidUTF8
  · obtain ⟨s, rfl⟩ := hvalid
    have hlines : (s.utf8Encode.data.toList.splitOn Text.feed).mapM
        (fun line => Text.decode? line.toByteArray) =
          some ((Text.splitAt '\n' s).map String.ofList) := by
      rw [List.utf8Encode, List.data_toByteArray, List.toList_toArray, Text.splitOn_encoded,
        List.mapM_map]
      exact mapM_eq_some_map fun part _ => Text.decode?_utf8Encode part
    have hall : Text.decode? s.utf8Encode = some (String.ofList s) := Text.decode?_utf8Encode s
    rw [read?, readEach?, hlines, hall, Option.map_some, Option.map_some, String.toList_ofList,
      ofChars_eq, List.filterMap_map]
    simp only [Function.comp_def, Path.normalize, String.toList_ofList]
  · obtain ⟨line, hmem, hline⟩ : ∃ line ∈ bytes.data.toList.splitOn Text.feed,
        ¬ line.toByteArray.IsValidUTF8 := by
      simpa using mt (Text.isValidUTF8_iff_lines bytes).2 hvalid
    rw [read?, readEach?, Text.decode?_eq_none_iff.2 hvalid,
      mapM_eq_none_of_mem hmem (Text.decode?_eq_none_iff.2 hline)]
    rfl

end FileList

end ModuleGraph
