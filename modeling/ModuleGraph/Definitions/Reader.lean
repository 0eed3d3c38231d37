import ModuleGraph.Definitions.Section
import ModuleGraph.Definitions.Value
import ModuleGraph.Text.Utf8

/-!
# Reading a definition text

A section begins with `[name "label"]` or `[name.label]`; its entries follow, `key = value` or a key
alone, with blanks, line ends and comments between them. A text that cannot be read is refused as a
whole, with the place where reading stopped.
-/

namespace ModuleGraph.Definitions

open Text (isInlineBlank dropInlineBlanks dropByteOrderMark)

/-- What was being read when a text turned out unreadable. -/
inductive Attempt
  | header
  | name
  | value
  deriving Repr, DecidableEq

structure Fault where
  attempt : Attempt
  /-- Counted from 1. -/
  line : Nat
  /-- The text from the place of the fault on. -/
  rest : List Char
  deriving Repr, DecidableEq

namespace Attempt

def label : Attempt → String
  | header => "section header"
  | name => "name"
  | value => "value"

end Attempt

namespace Fault

/-- The rest of the text, or its first characters with a note of how many bytes are left out. -/
def excerpt (rest : List Char) : String :=
  let size := (String.ofList rest).utf8ByteSize
  if size ≤ 10 then s!"'{String.ofList rest}'"
  else s!"'{String.ofList (rest.take 10)}' ... ({size - 10} characters omitted)"

def text (f : Fault) : String :=
  s!"Got an unexpected token on line {f.line} while trying to parse a {f.attempt.label}: {excerpt f.rest}"

end Fault

/-- Leaves out blanks, line ends and comments. -/
def skipFiller (inComment : Bool) : List Char → List Char
  | [] => []
  | '\n' :: s => skipFiller false s
  | '\r' :: '\n' :: s => skipFiller false s
  | c :: s =>
    if inComment then skipFiller true s
    else if isInlineBlank c then skipFiller false s
    else if c == ';' || c == '#' then skipFiller true s
    else c :: s

/-- The rest of a label up to its closing quote. A backslash makes the next character literal. -/
def readLabel? : List Char → Option (List Char × List Char)
  | '"' :: s => some ([], s)
  | '\\' :: c :: s =>
    if c = '\n' then none else (readLabel? s).map fun v => (c :: v.1, v.2)
  | c :: s =>
    if c = '\\' ∨ c = '\n' ∨ c = '\x00' then none else (readLabel? s).map fun v => (c :: v.1, v.2)
  | [] => none

def isNameChar (c : Char) : Bool := c.isAlphanum || c == '.' || c == '-'

/-- A name with a dot is cut at its last dot. -/
def splitName (name : List Char) : List Char × Option (List Char) :=
  match name.reverse.dropWhile (· != '.') with
  | [] => (name, none)
  | _ :: front => (front.reverse, some (name.drop (front.length + 1)))

structure Header where
  name : String
  label : Option String
  deriving Repr, DecidableEq

def readHeaderEnd? (name : List Char) : List Char → Option (Header × List Char)
  | ']' :: s =>
    match splitName name with
    | ([], _) => none
    | (n, l) => some (⟨String.ofList n, l.map String.ofList⟩, s)
  | c :: s =>
    if isInlineBlank c then
      match dropInlineBlanks s with
      | '"' :: t =>
        match readLabel? t with
        | some (l, ']' :: r) => some (⟨String.ofList name, some (String.ofList l)⟩, r)
        | _ => none
      | _ => none
    else none
  | [] => none

def readHeader? : List Char → Option (Header × List Char)
  | '[' :: s =>
    match s.takeWhile isNameChar with
    | [] => none
    | n :: name => readHeaderEnd? (n :: name) (s.dropWhile isNameChar)
  | _ => none

def isKeyChar (c : Char) : Bool := c.isAlphanum || c == '-'

/-- A key begins with a letter. -/
def readKey? : List Char → Option (List Char × List Char)
  | c :: s => if c.isAlpha then some (c :: s.takeWhile isKeyChar, s.dropWhile isKeyChar) else none
  | [] => none

/-- Reads what follows a key. Without `=` there is no value if the key ends there, and the empty one
if a blank follows. On failure, gives the text at the unreadable value. -/
def readAssigned (s : List Char) : Except (List Char) (Option String × List Char) :=
  match dropInlineBlanks s with
  | '=' :: t =>
    match readValue? (dropInlineBlanks t) with
    | some (v, r) => .ok (some v, r)
    | none => .error (dropInlineBlanks t)
  | t => .ok (if t.length = s.length then none else some "", t)

theorem length_dropWhile_le {α : Type} (p : α → Bool) (s : List α) :
    (s.dropWhile p).length ≤ s.length := (List.dropWhile_sublist p).length_le

theorem length_skipFiller (b : Bool) (s : List Char) : (skipFiller b s).length ≤ s.length := by
  fun_induction skipFiller b s <;> simp_all only [List.length_cons, Nat.le_refl] <;> omega

theorem length_readKey? {s k r : List Char} (h : readKey? s = some (k, r)) :
    r.length < s.length := by
  cases s with
  | nil => simp [readKey?] at h
  | cons c s =>
    simp only [readKey?, Option.ite_none_right_eq_some, Option.some.injEq, Prod.mk.injEq] at h
    have := length_dropWhile_le isKeyChar s
    rw [← h.2.2, List.length_cons]
    omega

theorem length_readAssigned {s r : List Char} {v : Option String}
    (h : readAssigned s = .ok (v, r)) : r.length ≤ s.length := by
  have hs := length_dropWhile_le isInlineBlank s
  unfold readAssigned at h
  split at h
  · rename_i t ht
    have h' := length_dropWhile_le isInlineBlank t
    rw [dropInlineBlanks] at ht
    simp only [ht, List.length_cons] at hs
    split at h
    · rename_i w r' hw
      have := length_readValue? hw
      simp only [Except.ok.injEq, Prod.mk.injEq] at h
      obtain ⟨-, rfl⟩ := h
      simp only [dropInlineBlanks] at this
      omega
    · exact absurd h (by simp)
  · simp only [Except.ok.injEq, Prod.mk.injEq] at h
    obtain ⟨-, rfl⟩ := h
    exact hs

theorem length_readLabel? {s l r : List Char} (h : readLabel? s = some (l, r)) :
    r.length < s.length := by
  fun_induction readLabel? s generalizing l
  case case1 => simp_all
  case case3 ih | case5 ih =>
    obtain ⟨a, ha, he⟩ := Option.map_eq_some_iff.1 h
    obtain ⟨-, rfl⟩ := Prod.mk.injEq .. ▸ he
    have := ih ha
    simp only [List.length_cons]
    omega
  all_goals simp_all

theorem length_readHeader? {s r : List Char} {h : Header} (hr : readHeader? s = some (h, r)) :
    r.length < s.length := by
  unfold readHeader? at hr
  split at hr
  · rename_i s
    split at hr
    · exact absurd hr (by simp)
    · rename_i n name hn
      have hs := length_dropWhile_le isNameChar s
      unfold readHeaderEnd? at hr
      split at hr
      · rename_i t ht
        simp only [ht, List.length_cons] at hs
        split at hr
        · exact absurd hr (by simp)
        · simp only [Option.some.injEq, Prod.mk.injEq] at hr
          obtain ⟨-, rfl⟩ := hr
          simp only [List.length_cons]
          omega
      · rename_i c t _ ht
        simp only [ht, List.length_cons] at hs
        split at hr
        · split at hr
          · rename_i u hu
            have hb := length_dropWhile_le isInlineBlank t
            rw [dropInlineBlanks] at hu
            simp only [hu, List.length_cons] at hb
            split at hr
            · rename_i l r' hl
              have := length_readLabel? hl
              simp only [Option.some.injEq, Prod.mk.injEq] at hr
              obtain ⟨-, rfl⟩ := hr
              simp only [List.length_cons] at this ⊢
              omega
            · exact absurd hr (by simp)
          · exact absurd hr (by simp)
        · exact absurd hr (by simp)
      · exact absurd hr (by simp)
  · exact absurd hr (by simp)

/-- Reads entries as far as they go. On failure, gives the text at the unreadable value. -/
def readEntries (s : List Char) : Except (List Char) (List Entry × List Char) :=
  match _ : readKey? (skipFiller false s) with
  | none => .ok ([], skipFiller false s)
  | some (key, t) =>
    match _ : readAssigned t with
    | .error at_ => .error at_
    | .ok (value, r) =>
      match readEntries r with
      | .error at_ => .error at_
      | .ok (es, rest) => .ok (⟨String.ofList key, value⟩ :: es, rest)
termination_by s.length
decreasing_by
  have h1 := length_skipFiller false s
  have h2 := length_readKey? ‹readKey? _ = some _›
  have h3 := length_readAssigned ‹readAssigned _ = .ok _›
  omega

theorem length_readEntries {s r : List Char} {es : List Entry} (h : readEntries s = .ok (es, r)) :
    r.length ≤ s.length := by
  fun_induction readEntries s generalizing es r
  case case1 s hk =>
    simp only [Except.ok.injEq, Prod.mk.injEq] at h
    obtain ⟨-, rfl⟩ := h
    exact length_skipFiller false s
  case case4 s key t hk value r' ha es' rest hr ih =>
    simp only [Except.ok.injEq, Prod.mk.injEq] at h
    obtain ⟨-, rfl⟩ := h
    have h1 := length_skipFiller false s
    have h2 := length_readKey? hk
    have h3 := length_readAssigned ha
    have h4 := ih hr
    omega
  all_goals simp_all

def Section.ofHeader (h : Header) (es : List Entry) : Section := ⟨h.name, h.label, es⟩

/-- Reads sections as far as they go. On failure, gives the text at the section that holds the
unreadable value. -/
def readSections (s : List Char) : Except (List Char) (List Section × List Char) :=
  match _ : readHeader? s with
  | none => .ok ([], s)
  | some (h, t) =>
    match _ : readEntries t with
    | .error _ => .error s
    | .ok (es, r) =>
      match readSections r with
      | .error at_ => .error at_
      | .ok (ss, rest) => .ok (Section.ofHeader h es :: ss, rest)
termination_by s.length
decreasing_by
  have h1 := length_readHeader? ‹readHeader? _ = some _›
  have h2 := length_readEntries ‹readEntries _ = .ok _›
  omega

/-- The sections of a text, or what was being read and the text from there on. A bad value is
reported at the value itself in the first section and at the section in a later one. -/
def readText (text : List Char) : Except (Attempt × List Char) (List Section) :=
  match skipFiller false text with
  | [] => .ok []
  | c :: s =>
    match readHeader? (c :: s) with
    | none => .error (.header, c :: s)
    | some (h, t) =>
      match readEntries t with
      | .error rest => .error (.value, rest)
      | .ok (es, r) =>
        match readSections r with
        | .error rest => .error (.value, rest)
        | .ok (ss, []) => .ok (Section.ofHeader h es :: ss)
        | .ok (_, rest) => .error (.name, rest)

def readSectionList (text : List Char) : Except Fault (List Section) :=
  match readText (dropByteOrderMark text) with
  | .ok ss => .ok ss
  | .error (attempt, rest) =>
    .error ⟨attempt, (text.take (text.length - rest.length)).count '\n' + 1, rest⟩

end ModuleGraph.Definitions
