import Mathlib.Data.List.DropRight
import ModuleGraph.Json.Reader

/-!
# Reading back indented documents

The reader gives back what the indented text of a document was written from, whatever characters its
strings hold, as long as it holds no number. The text of a value is read with anything behind it and
blanks in front of it, so what holds of the items of an array goes over to the array.
-/

namespace ModuleGraph.Json

open Text (hexDigit hexValue? hexValue?_hexDigit)

/-- A document of strings, truth values and `null`, without numbers. -/
inductive Numberless : Json → Prop
  | null : Numberless null
  | bool (b : Bool) : Numberless (bool b)
  | string (s : String) : Numberless (string s)
  | array {items : List Json} (h : ∀ j ∈ items, Numberless j) : Numberless (array items)
  | object {fields : List (String × Json)} (h : ∀ f ∈ fields, Numberless f.2) :
    Numberless (object fields)

theorem numberless_strings (xs : List String) : Numberless (strings xs) := by
  refine .array fun j hj => ?_
  obtain ⟨s, -, rfl⟩ := List.mem_map.1 hj
  exact .string s

variable {j : Json} {depth fuel : Nat} {s rest : List Char}

/-! ### Strings -/

theorem readUnicode?_control {c : Char} (h : c.toNat < 0x20) (rest : List Char) :
    readUnicode? ('0' :: '0' :: hexDigit (c.toNat / 16) :: hexDigit (c.toNat % 16) :: rest) =
      some (c, rest) := by
  have hzero : hexValue? '0' = some 0 := by decide
  have hhigh : hexValue? (hexDigit (c.toNat / 16)) = some (c.toNat / 16) :=
    hexValue?_hexDigit (by omega)
  have hlow : hexValue? (hexDigit (c.toNat % 16)) = some (c.toNat % 16) :=
    hexValue?_hexDigit (by omega)
  have hvalue : ((0 * 16 + 0) * 16 + c.toNat / 16) * 16 + c.toNat % 16 = c.toNat := by omega
  have hread : readHex4? ('0' :: '0' :: hexDigit (c.toNat / 16) :: hexDigit (c.toNat % 16) :: rest) =
      some (c.toNat, rest) := by
    simp only [readHex4?, hzero, hhigh, hlow, Option.bind_eq_bind, Option.bind_some, hvalue]
    rfl
  rw [readUnicode?, hread]
  simp only
  rw [if_neg (by omega), if_neg (by omega), Char.ofNat_toNat]

/-- What stands for a character in a string is read as that character. -/
theorem readChars?_escapeChar (c : Char) (fuel : Nat) (s : List Char) :
    readChars? (fuel + 1) (escapeChar c ++ s) =
      (readChars? fuel s).map fun v => (c :: v.1, v.2) := by
  unfold escapeChar
  -- Seven characters have an escape of their own.
  iterate 7
    split
    · subst c
      simp [readChars?, simpleEscape?]
  split
  · rename_i hcontrol
    simp [escapeControl, readChars?, readUnicode?_control hcontrol]
  · rename_i hquote hslash _ _ _ _ _ hcontrol
    rw [List.singleton_append, readChars?]
    · simp [hcontrol, hslash]
    all_goals simp_all

theorem readChars?_escaped (s rest : List Char) (h : s.length < fuel) :
    readChars? fuel (s.flatMap escapeChar ++ '"' :: rest) = some (s, rest) := by
  induction s generalizing fuel with
  | nil =>
    obtain ⟨n, rfl⟩ := Nat.exists_eq_add_of_lt h
    simp [readChars?]
  | cons c s ih =>
    obtain ⟨n, rfl⟩ : ∃ n, fuel = n + 1 := ⟨fuel - 1, by omega⟩
    rw [List.flatMap_cons, List.append_assoc, readChars?_escapeChar,
      ih (by simpa using h), Option.map_some]

theorem escapeChar_ne_nil (c : Char) : escapeChar c ≠ [] := by
  unfold escapeChar
  repeat' split
  all_goals simp [escapeControl]

theorem length_le_length_escaped (s : List Char) : s.length ≤ (s.flatMap escapeChar).length := by
  induction s with
  | nil => simp
  | cons c s ih =>
    have hc := List.length_pos_iff.2 (escapeChar_ne_nil c)
    rw [List.flatMap_cons, List.length_append, List.length_cons]
    omega

theorem readString?_quoted (s : String) (rest : List Char) :
    readString? (quoted s ++ rest) = some (s, rest) := by
  have hlength : s.toList.length <
      (s.toList.flatMap escapeChar ++ '"' :: rest).length + 1 := by
    have := length_le_length_escaped s.toList
    simp only [List.length_append]
    omega
  have hshape : quoted s ++ rest = '"' :: (s.toList.flatMap escapeChar ++ '"' :: rest) := by
    simp [quoted]
  rw [hshape, readString?, readChars?_escaped _ _ hlength, Option.map_some, String.ofList_toList]

/-! ### Blanks -/

theorem skipBlanks_cons {c : Char} (h : isJsonBlank c = false) : skipBlanks (c :: s) = c :: s :=
  List.dropWhile_cons_of_neg (by simp [h])

theorem skipBlanks_newline (depth : Nat) (s : List Char) :
    skipBlanks (newline depth ++ s) = skipBlanks s := by
  have hblank : ∀ c ∈ newline depth, isJsonBlank c = true := by
    intro c hc
    rcases List.mem_cons.1 hc with rfl | hc
    · rfl
    · rw [List.eq_of_mem_replicate hc]
      rfl
  exact List.dropWhile_append_of_pos hblank

theorem skipBlanks_skipBlanks (s : List Char) : skipBlanks (skipBlanks s) = skipBlanks s :=
  List.dropWhile_idempotent _ s

theorem skipBlanks_quoted (s : String) (rest : List Char) :
    skipBlanks (quoted s ++ rest) = quoted s ++ rest :=
  skipBlanks_cons (by decide)

/-! ### Values -/

/-- The text of a value is read as that value, whatever follows it and whatever blanks stand in front
of it. No more steps are taken than the text has characters, and one. -/
def ReadsBack (j : Json) : Prop :=
  ∀ depth fuel s rest, skipBlanks s = skipBlanks (prettyAt depth j ++ rest) →
    (prettyAt depth j).length ≤ fuel → readValue? (fuel + 1) s = some (j, rest)

theorem readItems?_pretty {js : List Json} {inner outer : Nat} (hj : ReadsBack j)
    (hjs : ∀ i ∈ js, ReadsBack i)
    (hs : skipBlanks s = skipBlanks
      (prettyAt inner j ++ (prettyItems inner js ++ (newline outer ++ ']' :: rest))))
    (hfuel : (prettyAt inner j).length + (prettyItems inner js).length ≤ fuel) :
    readItems? (fuel + 2) s = some (j :: js, rest) := by
  induction js generalizing j s fuel with
  | nil =>
    have hend : skipBlanks (prettyItems inner [] ++ (newline outer ++ ']' :: rest)) = ']' :: rest := by
      rw [prettyItems, List.nil_append, skipBlanks_newline, skipBlanks_cons (by decide)]
    rw [readItems?, hj inner fuel s _ hs (by omega)]
    simp only [hend]
  | cons i js ih =>
    obtain ⟨hi, hjs⟩ := List.forall_mem_cons.1 hjs
    have hnext : skipBlanks (prettyItems inner (i :: js) ++ (newline outer ++ ']' :: rest)) =
        ',' :: (newline inner ++ (prettyAt inner i ++
          (prettyItems inner js ++ (newline outer ++ ']' :: rest)))) := by
      simp only [prettyItems, List.cons_append, List.append_assoc]
      exact skipBlanks_cons (by decide)
    simp only [prettyItems, List.cons_append, List.length_cons, List.length_append] at hfuel
    obtain ⟨n, rfl⟩ : ∃ n, fuel = n + 1 := ⟨fuel - 1, by omega⟩
    rw [readItems?, hj inner (n + 1) s _ hs (by omega)]
    simp only [hnext]
    rw [ih hi hjs (skipBlanks_newline _ _) (by omega), Option.map_some]

/-- The first field is read, and then it depends on what stands behind it. -/
theorem readFields?_first {name : String} {inner : Nat} {behind : List Char} (hj : ReadsBack j)
    (hs : skipBlanks s = quoted name ++ ':' :: ' ' :: (prettyAt inner j ++ behind))
    (hfuel : (prettyAt inner j).length ≤ fuel) :
    readFields? (fuel + 2) s =
      match skipBlanks behind with
      | ',' :: r => (readFields? (fuel + 1) r).map fun v => ((name, j) :: v.1, v.2)
      | '\x7d' :: r => some ([(name, j)], r)
      | _ => none := by
  have hblank : skipBlanks (' ' :: (prettyAt inner j ++ behind)) =
      skipBlanks (prettyAt inner j ++ behind) :=
    List.dropWhile_cons_of_pos (by decide)
  have hcolon : skipBlanks (':' :: ' ' :: (prettyAt inner j ++ behind)) =
      ':' :: ' ' :: (prettyAt inner j ++ behind) :=
    skipBlanks_cons (by decide)
  rw [readFields?, hs, readString?_quoted]
  simp only [hcolon]
  rewrite [hj inner fuel _ behind hblank hfuel]
  rfl

theorem readFields?_pretty {name : String} {fs : List (String × Json)} {inner outer : Nat}
    (hj : ReadsBack j) (hfs : ∀ f ∈ fs, ReadsBack f.2)
    (hs : skipBlanks s = quoted name ++ ':' :: ' ' ::
      (prettyAt inner j ++ (prettyFields inner fs ++ (newline outer ++ '\x7d' :: rest))))
    (hfuel : (prettyAt inner j).length + (prettyFields inner fs).length ≤ fuel) :
    readFields? (fuel + 2) s = some ((name, j) :: fs, rest) := by
  rw [readFields?_first hj hs (by omega)]
  induction fs generalizing name j s fuel with
  | nil =>
    have hend : skipBlanks (prettyFields inner [] ++ (newline outer ++ '\x7d' :: rest)) =
        '\x7d' :: rest := by
      rw [prettyFields, List.nil_append, skipBlanks_newline, skipBlanks_cons (by decide)]
    rw [hend]
    rfl
  | cons f fs ih =>
    obtain ⟨hf, hfs⟩ := List.forall_mem_cons.1 hfs
    have hnext : skipBlanks (prettyFields inner (f :: fs) ++ (newline outer ++ '\x7d' :: rest)) =
        ',' :: (newline inner ++ (quoted f.1 ++ ':' :: ' ' :: (prettyAt inner f.2 ++
          (prettyFields inner fs ++ (newline outer ++ '\x7d' :: rest))))) := by
      simp only [prettyFields, List.cons_append, List.append_assoc, List.nil_append]
      exact skipBlanks_cons (by decide)
    have hfield := (skipBlanks_newline inner _).trans (skipBlanks_quoted f.1 (':' :: ' ' ::
      (prettyAt inner f.2 ++ (prettyFields inner fs ++ (newline outer ++ '\x7d' :: rest)))))
    simp only [prettyFields, List.cons_append, List.length_cons, List.length_append] at hfuel
    obtain ⟨n, rfl⟩ : ∃ n, fuel = n + 1 := ⟨fuel - 1, by omega⟩
    rw [hnext]
    simp only
    rw [readFields?_first hf hfield (by omega), ih hf hfs hfield (by omega), Option.map_some]

theorem readsBack_null : ReadsBack null := by
  intro depth fuel s rest hs _
  have htext : skipBlanks (prettyAt depth null ++ rest) = 'n' :: 'u' :: 'l' :: 'l' :: rest :=
    skipBlanks_cons (by decide)
  rw [readValue?, hs, htext]
  rfl

theorem readsBack_bool (b : Bool) : ReadsBack (bool b) := by
  intro depth fuel s rest hs _
  cases b with
  | false =>
    have htext : skipBlanks (prettyAt depth (bool false) ++ rest) =
        'f' :: 'a' :: 'l' :: 's' :: 'e' :: rest := skipBlanks_cons (by decide)
    rw [readValue?, hs, htext]
    rfl
  | true =>
    have htext : skipBlanks (prettyAt depth (bool true) ++ rest) =
        't' :: 'r' :: 'u' :: 'e' :: rest := skipBlanks_cons (by decide)
    rw [readValue?, hs, htext]
    rfl

theorem readsBack_string (t : String) : ReadsBack (string t) := by
  intro depth fuel s rest hs _
  have htext : skipBlanks (prettyAt depth (string t) ++ rest) = quoted t ++ rest :=
    skipBlanks_quoted t rest
  rw [readValue?, hs, htext, quoted, List.cons_append, List.cons_append]
  simp only
  rw [← List.cons_append, ← List.cons_append, ← quoted, readString?_quoted, Option.map_some]

/-- The text of a value that is no number does not look like the end of an array. -/
theorem skipBlanks_prettyAt_ne (h : Numberless j) (depth : Nat) (rest t : List Char) :
    skipBlanks (prettyAt depth j ++ rest) ≠ ']' :: t := by
  cases h with
  | null => simp [prettyAt, skipBlanks_cons, isJsonBlank]
  | bool b => cases b <;> simp [prettyAt, skipBlanks_cons, isJsonBlank]
  | string s => simp [prettyAt, quoted, skipBlanks_cons, isJsonBlank]
  | @array items _ => cases items <;> simp [prettyAt, skipBlanks_cons, isJsonBlank]
  | @object fields _ => cases fields <;> simp [prettyAt, skipBlanks_cons, isJsonBlank]

theorem readsBack_array {items : List Json} (hitems : ∀ j ∈ items, Numberless j)
    (h : ∀ j ∈ items, ReadsBack j) : ReadsBack (array items) := by
  intro depth fuel s rest hs hfuel
  cases items with
  | nil =>
    have htext : skipBlanks (prettyAt depth (array []) ++ rest) = '[' :: ']' :: rest :=
      skipBlanks_cons (by decide)
    rw [readValue?, hs, htext]
    rfl
  | cons j js =>
    obtain ⟨hj, hjs⟩ := List.forall_mem_cons.1 h
    generalize htail : newline (depth + 1) ++ (prettyAt (depth + 1) j ++
      (prettyItems (depth + 1) js ++ (newline depth ++ ']' :: rest))) = tail
    have htext : skipBlanks (prettyAt depth (array (j :: js)) ++ rest) = '[' :: tail := by
      simp only [prettyAt, List.cons_append, List.append_assoc, List.nil_append, htail]
      exact skipBlanks_cons (by decide)
    have hblank : skipBlanks tail = skipBlanks (prettyAt (depth + 1) j ++
        (prettyItems (depth + 1) js ++ (newline depth ++ ']' :: rest))) := by
      rw [← htail, skipBlanks_newline]
    have hopen : ∀ t, skipBlanks tail ≠ ']' :: t := by
      intro t
      rw [hblank]
      exact skipBlanks_prettyAt_ne (hitems j List.mem_cons_self) _ _ t
    simp only [prettyAt, List.cons_append, List.length_cons, List.length_append] at hfuel
    obtain ⟨n, rfl⟩ : ∃ n, fuel = n + 2 := ⟨fuel - 2, by omega⟩
    rw [readValue?, hs, htext]
    -- The array does not end at once, by `hopen`.
    simp only
    rw [readItems?_pretty hj hjs ((skipBlanks_skipBlanks tail).trans hblank) (by omega),
      Option.map_some]

theorem readsBack_object {fields : List (String × Json)} (h : ∀ f ∈ fields, ReadsBack f.2) :
    ReadsBack (object fields) := by
  intro depth fuel s rest hs hfuel
  cases fields with
  | nil =>
    have htext : skipBlanks (prettyAt depth (object []) ++ rest) = '\x7b' :: '\x7d' :: rest :=
      skipBlanks_cons (by decide)
    rw [readValue?, hs, htext]
    rfl
  | cons f fs =>
    obtain ⟨hf, hfs⟩ := List.forall_mem_cons.1 h
    generalize htail : newline (depth + 1) ++ (quoted f.1 ++ ':' :: ' ' ::
      (prettyAt (depth + 1) f.2 ++
        (prettyFields (depth + 1) fs ++ (newline depth ++ '\x7d' :: rest)))) = tail
    have htext : skipBlanks (prettyAt depth (object (f :: fs)) ++ rest) = '\x7b' :: tail := by
      simp only [prettyAt, List.cons_append, List.append_assoc, List.nil_append, htail]
      exact skipBlanks_cons (by decide)
    have hblank : skipBlanks tail = quoted f.1 ++ ':' :: ' ' :: (prettyAt (depth + 1) f.2 ++
        (prettyFields (depth + 1) fs ++ (newline depth ++ '\x7d' :: rest))) := by
      rw [← htail, skipBlanks_newline, skipBlanks_quoted]
    have hopen : ∀ t, skipBlanks tail ≠ '\x7d' :: t := by
      intro t
      rw [hblank, quoted]
      simp
    simp only [prettyAt, List.cons_append, List.length_cons, List.length_append] at hfuel
    obtain ⟨n, rfl⟩ : ∃ n, fuel = n + 2 := ⟨fuel - 2, by omega⟩
    rw [readValue?, hs, htext]
    -- The object does not end at once, by `hopen`.
    simp only
    rw [readFields?_pretty hf hfs ((skipBlanks_skipBlanks tail).trans hblank) (by omega),
      Option.map_some]

theorem readsBack_of_numberless (h : Numberless j) : ReadsBack j := by
  induction h with
  | null => exact readsBack_null
  | bool b => exact readsBack_bool b
  | string s => exact readsBack_string s
  | array hitems ih => exact readsBack_array hitems ih
  | object _ ih => exact readsBack_object ih

/-- The text of a document without numbers is read as this document. -/
theorem parse?_pretty (h : Numberless j) : parse? (pretty j) = some j := by
  have hread : readValue? (2 * (prettyAt 0 j).length + 2) (prettyAt 0 j) = some (j, []) :=
    readsBack_of_numberless h 0 _ _ [] (by rw [List.append_nil]) (by omega)
  rw [parse?, pretty, String.toList_ofList, String.length_ofList, hread]
  rfl

theorem eq_of_pretty {k : Json} (hj : Numberless j) (hk : Numberless k) (h : pretty j = pretty k) :
    j = k := by
  have hread := parse?_pretty hj
  rw [h, parse?_pretty hk] at hread
  exact (Option.some.inj hread).symm

end ModuleGraph.Json
