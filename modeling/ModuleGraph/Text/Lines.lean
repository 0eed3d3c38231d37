/-!
# Lines

A line ends at a line feed, or at the end of the text; a carriage return right before the line feed
belongs to the line end. A line end that closes the text begins no further line.
-/

namespace ModuleGraph.Text

/-- A line without the carriage return at its end. -/
def dropReturn (line : List Char) : List Char :=
  if line.getLast? = some '\r' then line.dropLast else line

/-- Splits at every `sep`; there is one part more than separators. -/
def splitAt (sep : Char) : List Char → List (List Char)
  | [] => [[]]
  | c :: s =>
    if c = sep then [] :: splitAt sep s
    else
      match splitAt sep s with
      | [] => [[c]]
      | p :: ps => (c :: p) :: ps

def lines (s : List Char) : List (List Char) :=
  let parts := splitAt '\n' s
  let last := parts.getLast?.getD []
  parts.dropLast.map dropReturn ++ if last = [] then [] else [last]

theorem splitAt_ne_nil (sep : Char) (s : List Char) : splitAt sep s ≠ [] := by
  cases s with
  | nil => simp [splitAt]
  | cons c s =>
    simp only [splitAt]
    split
    · simp
    · split <;> simp

/-- Each part with a separator behind it. -/
theorem flatMap_splitAt (sep : Char) (s : List Char) :
    (splitAt sep s).flatMap (· ++ [sep]) = s ++ [sep] := by
  induction s with
  | nil => rfl
  | cons c s ih =>
    by_cases h : c = sep
    · subst h
      simp [splitAt, ih]
    · cases hs : splitAt sep s with
      | nil => exact absurd hs (splitAt_ne_nil sep s)
      | cons p ps =>
        rw [hs] at ih
        simpa [splitAt, h, hs] using ih

/-- A text cut at one of its separators. -/
theorem splitAt_append (sep : Char) (s t : List Char) :
    splitAt sep (s ++ sep :: t) = splitAt sep s ++ splitAt sep t := by
  induction s with
  | nil => simp [splitAt]
  | cons c s ih =>
    by_cases h : c = sep
    · simp [splitAt, h, ih]
    · cases hs : splitAt sep s with
      | nil => exact absurd hs (splitAt_ne_nil sep s)
      | cons p ps =>
        rw [hs] at ih
        simp [splitAt, h, hs, ih]

@[simp] theorem lines_nil : lines [] = [] := rfl

end ModuleGraph.Text
