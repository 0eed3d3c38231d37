/-!
# Values in a definition text

A value runs to the end of its line or to an unquoted `;` or `#`. A backslash before the line end
joins the next line to it. Quotes hide comment signs and are dropped; `\n`, `\t`, `\b`, `\\` and `\"`
stand for a line feed, a tab, the removal of one byte, a backslash and a quote.
-/

namespace ModuleGraph.Definitions

def isEscapable (c : Char) : Bool := c == 'n' || c == 't' || c == 'b' || c == '\\' || c == '"'

/-- Puts characters in front of the first line of a value. -/
def onFirst (cs : List Char) : List (List Char) × List Char → List (List Char) × List Char
  | (l :: ls, r) => ((cs ++ l) :: ls, r)
  | ([], r) => ([cs], r)

/-- The joined lines of a value as they are written, and the text after it. There is no value where
a quote stays open or a backslash stands before a character it cannot escape. -/
def valueLines (quoted : Bool) : List Char → Option (List (List Char) × List Char)
  | [] => if quoted then none else some ([[]], [])
  | '\\' :: '\n' :: s => (valueLines quoted s).map fun v => ([] :: v.1, v.2)
  | '\\' :: '\r' :: '\n' :: s => (valueLines quoted s).map fun v => ([] :: v.1, v.2)
  | '\\' :: c :: s => if isEscapable c then (valueLines quoted s).map (onFirst ['\\', c]) else none
  | c :: s =>
    if c = '\\' then none
    else if c = '"' then (valueLines (!quoted) s).map (onFirst [c])
    else if c = '\n' then if quoted then none else some ([[]], c :: s)
    else if !quoted && (c == ';' || c == '#') then some ([[]], c :: s)
    else (valueLines quoted s).map (onFirst [c])

/-- White space that is cut from the end of a value. -/
def isValueBlank (c : Char) : Bool :=
  c == ' ' || c == '\t' || c == '\n' || c == '\r' || c == '\x0c'

def endBlanks (s : List Char) : List Char := (s.reverse.takeWhile isValueBlank).reverse

def dropEndBlanks (s : List Char) : List Char := (s.reverse.dropWhile isValueBlank).reverse

/-- A character of which the last bytes may have been removed. -/
structure Remnant where
  char : Char
  lost : Nat := 0

/-- Removes one byte behind the text; the text is kept with its end in front. -/
def dropByte : List Remnant → List Remnant
  | [] => []
  | x :: xs => if x.lost + 1 < x.char.utf8Size then { x with lost := x.lost + 1 } :: xs else xs

/-- A character that has lost bytes is no character any more. -/
def Remnant.toChar (x : Remnant) : Char := if x.lost = 0 then x.char else '\uFFFD'

/-- What a written value means; `done` is the part already read, with its end in front. -/
def unescapeFrom (done : List Remnant) : List Char → List Remnant
  | [] => done
  | '\\' :: c :: s =>
    if c = 'n' then unescapeFrom (⟨'\n', 0⟩ :: done) s
    else if c = 't' then unescapeFrom (⟨'\t', 0⟩ :: done) s
    else if c = 'b' then unescapeFrom (dropByte done) s
    else unescapeFrom (⟨c, 0⟩ :: done) s
  | c :: s => if c = '"' ∨ c = '\\' then unescapeFrom done s else unescapeFrom (⟨c, 0⟩ :: done) s

def unescape (s : List Char) : List Char := (unescapeFrom [] s).reverse.map Remnant.toChar

/-- Reads a value. The white space that is cut from its end is left in the text after it. A value
whose last line is missing is empty. -/
def readValue? (s : List Char) : Option (String × List Char) :=
  (valueLines false s).map fun v =>
    let last := v.1.getLast?.getD []
    if last = [] ∧ v.2 = [] then ("", [])
    else (String.ofList (unescape (v.1.dropLast.flatten ++ dropEndBlanks last)),
      endBlanks last ++ v.2)

/-- Characters of the lines of a value and of the text after it. -/
def weight (v : List (List Char) × List Char) : Nat := v.1.flatten.length + v.2.length

theorem weight_onFirst (cs : List Char) (v : List (List Char) × List Char) :
    weight (onFirst cs v) = cs.length + weight v := by
  obtain ⟨ls, r⟩ := v
  cases ls <;> simp [weight, onFirst, Nat.add_assoc]

theorem weight_valueLines {quoted : Bool} {s : List Char} {v : List (List Char) × List Char}
    (h : valueLines quoted s = some v) : weight v ≤ s.length := by
  fun_induction valueLines quoted s generalizing v
  case case3 ih | case4 ih =>
    obtain ⟨a, ha, rfl⟩ := Option.map_eq_some_iff.1 h
    have := ih ha
    simp only [weight, List.flatten_cons, List.nil_append, List.length_cons] at this ⊢
    omega
  case case5 ih =>
    obtain ⟨a, ha, rfl⟩ := Option.map_eq_some_iff.1 h
    have := ih ha
    simp only [weight_onFirst, List.length_cons, List.length_nil]
    omega
  case case8 ih | case12 ih =>
    obtain ⟨a, ha, rfl⟩ := Option.map_eq_some_iff.1 h
    have := ih ha
    simp only [weight_onFirst, List.length_cons, List.length_nil]
    omega
  case case2 | case10 | case11 =>
    simp only [Option.some.injEq] at h
    subst h
    simp [weight]
  all_goals simp_all

theorem endBlanks_append (s : List Char) : dropEndBlanks s ++ endBlanks s = s := by
  rw [dropEndBlanks, endBlanks, ← List.reverse_append, List.takeWhile_append_dropWhile,
    List.reverse_reverse]

theorem length_readValue? {s : List Char} {v : String × List Char} (h : readValue? s = some v) :
    v.2.length ≤ s.length := by
  obtain ⟨w, hw, rfl⟩ := Option.map_eq_some_iff.1 h
  have hl := weight_valueLines hw
  obtain ⟨ls, r⟩ := w
  simp only
  split
  · simp
  · cases hls : ls.getLast? with
    | none => simp [weight, endBlanks] at hl ⊢; omega
    | some last =>
      have hm : last.length ≤ ls.flatten.length :=
        (List.sublist_flatten_of_mem (List.mem_of_getLast? hls)).length_le
      have := congrArg List.length (endBlanks_append last)
      simp only [List.length_append, weight, Option.getD_some] at *
      omega

end ModuleGraph.Definitions
