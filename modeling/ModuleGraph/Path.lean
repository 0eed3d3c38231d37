import ModuleGraph.Text.Blank

/-!
# Repository paths

Paths are relative to the repository root and use `/` throughout. A path lies within a directory
when it equals it or continues it at a `/`: `src/app/x` lies within `src/app`, `src/application`
does not. Predicates and normalisation work on character lists; the `String` versions wrap them.
-/

namespace ModuleGraph.Path

def separator : Char := '/'

/-- Removes every leading `./`. -/
def dropHere : List Char → List Char
  | '.' :: '/' :: s => dropHere s
  | s => s

def dropEndSeparators (s : List Char) : List Char :=
  (s.reverse.dropWhile (· == separator)).reverse

/-- The usable form of a declared path: no blanks around it, no `./` in front, no `/` behind. What
then names nothing, or the root itself, is no path. -/
def normalizeChars (s : List Char) : Option (List Char) :=
  match dropEndSeparators (dropHere (Text.trimChars s)) with
  | [] => none
  | ['.'] => none
  | p => some p

def normalize (s : String) : Option String := (normalizeChars s.toList).map String.ofList

/-- The second path goes on with a `/` where the first one ends. -/
def isAncestorChars : List Char → List Char → Bool
  | [], c :: _ => c == separator
  | d :: dir, c :: path => d == c && isAncestorChars dir path
  | _, [] => false

/-- `dir` is a directory strictly above `path`. -/
def isAncestor (dir path : String) : Bool := isAncestorChars dir.toList path.toList

/-- `path` is `dir` or lies below it. -/
def isWithin (path dir : String) : Bool := path == dir || isAncestor dir path

def belongsTo (path : String) (set : List String) : Bool := set.any (isWithin path)

/-- Files told apart by membership in a path set, each side in the order given. -/
structure Partition where
  inside : List String
  outside : List String
  deriving Repr, DecidableEq

def partition (files set : List String) : Partition where
  inside := files.filter (belongsTo · set)
  outside := files.filter (!belongsTo · set)

@[simp] theorem isAncestorChars_nil_right (dir : List Char) : isAncestorChars dir [] = false := by
  cases dir <;> rfl

theorem isAncestorChars_iff {dir path : List Char} :
    isAncestorChars dir path = true ↔ ∃ rest, path = dir ++ separator :: rest := by
  induction dir generalizing path with
  | nil => cases path <;> simp [isAncestorChars]
  | cons d dir ih =>
    cases path with
    | nil => simp
    | cons c path =>
      simp only [isAncestorChars, Bool.and_eq_true, beq_iff_eq, ih, List.cons_append,
        List.cons.injEq, exists_and_left]
      exact and_congr_left fun _ => eq_comm

theorem isAncestor_iff {dir path : String} :
    isAncestor dir path = true ↔ ∃ rest, path.toList = dir.toList ++ separator :: rest :=
  isAncestorChars_iff

theorem isWithin_self (path : String) : isWithin path path = true := by simp [isWithin]

end ModuleGraph.Path
