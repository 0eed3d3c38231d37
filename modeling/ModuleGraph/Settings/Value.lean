import ModuleGraph.Toml.Tree

/-!
# Setting values

The values that sources of settings give, and how they are laid over each other. A table is merged
into what is there, field by field; any other value takes the place of what is there.
-/

namespace ModuleGraph.Settings

inductive Scalar
  | bool (b : Bool)
  | int (n : Int)
  | float (x : Decimal.Binary64)
  | text (s : String)
  deriving Repr, DecidableEq

/-- Values know the source they come from, if it has a name. -/
inductive Value
  | absent
  | scalar (origin : Option String) (s : Scalar)
  | list (origin : Option String) (items : List Value)
  | table (origin : Option String) (fields : List (String × Value))
  deriving Repr

inductive Step
  | field (name : String)
  /-- A place in a list; a negative one counts from the end. -/
  | item (index : Int)
  deriving Repr, DecidableEq

namespace Value

def empty : Value := table none []

def origin : Value → Option String
  | absent => none
  | scalar o _ => o
  | list o _ => o
  | table o _ => o

/-- Changes the value of a field, which is made if it is not there. -/
def alter (name : String) (f : Value → Value) : List (String × Value) → List (String × Value)
  | [] => [(name, f absent)]
  | (k, v) :: fs => if k = name then (k, f v) :: fs else (k, v) :: alter name f fs

def get? (fields : List (String × Value)) (name : String) : Option Value :=
  (fields.find? (·.1 = name)).map (·.2)

/-- A list with a place for the index, and that place. -/
def makeRoom (items : List Value) (index : Int) : List Value × Nat :=
  if 0 ≤ index then
    (items ++ List.replicate (index.toNat + 1 - items.length) absent, index.toNat)
  else if (-index).toNat ≤ items.length then (items, items.length - (-index).toNat)
  else (List.replicate ((-index).toNat - items.length) absent ++ items, 0)

/-- Changes a field. What is no table gives way to one. -/
def alterField (name : String) (f : Value → Value) : Value → Value
  | table o fs => table o (alter name f fs)
  | _ => table none (alter name f [])

/-- Changes an item. What is no list gives way to one. -/
def alterItem (index : Int) (f : Value → Value) : Value → Value
  | list o items =>
    let (items, i) := makeRoom items index
    list o (items.modify i f)
  | _ =>
    let (items, i) := makeRoom [] index
    list none (items.modify i f)

def update : List Step → (Value → Value) → Value → Value
  | [], f => f
  | .field name :: path, f => alterField name (update path f)
  | .item index :: path, f => alterItem index (update path f)

/-- What a table is merged into. -/
def orEmpty : Value → Value
  | absent => empty
  | v => v

mutual

/-- Lays a value over what is there. -/
def mergeInto : Value → Value → Value
  | table _ fs, old => mergeFields fs old.orEmpty
  | v, _ => v

def mergeFields : List (String × Value) → Value → Value
  | [], old => old
  | (k, v) :: fs, old => mergeFields fs (old.alterField k (mergeInto v))

end

mutual

def ofToml (origin : Option String) : Toml → Value
  | .bool b => scalar origin (.bool b)
  | .int n => scalar origin (.int n)
  | .float x => scalar origin (.float x)
  | .text s => scalar origin (.text s)
  | .array items => list origin (ofItems origin items)
  | .table entries => table origin (ofEntries origin entries)

def ofItems (origin : Option String) : List Toml → List Value
  | [] => []
  | t :: ts => ofToml origin t :: ofItems origin ts

def ofEntries (origin : Option String) : List (String × Toml) → List (String × Value)
  | [] => []
  | (k, t) :: es => (k, ofToml origin t) :: ofEntries origin es

end

theorem get?_alter_self (name : String) (f : Value → Value) (fs : List (String × Value)) :
    get? (alter name f fs) name = some (f ((get? fs name).getD absent)) := by
  induction fs with
  | nil => simp [alter, get?]
  | cons e fs ih =>
    by_cases h : e.1 = name
    · simp [alter, get?, h]
    · simpa [alter, get?, h] using ih

theorem get?_alter_of_ne {name other : String} (h : other ≠ name) (f : Value → Value)
    (fs : List (String × Value)) : get? (alter name f fs) other = get? fs other := by
  induction fs with
  | nil => simp [alter, get?, h.symm]
  | cons e fs ih =>
    by_cases he : e.1 = name
    · simp [alter, get?, he, h.symm]
    · by_cases ho : e.1 = other
      · simp [alter, get?, ho, h]
      · simpa [alter, get?, he, ho] using ih

end Value

end ModuleGraph.Settings
