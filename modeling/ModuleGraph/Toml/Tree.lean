import ModuleGraph.Decimal.Binary64

/-!
# TOML documents

A document is built from statements: an entry `a.b = v`, which belongs to the table named last, and
the headers `[a.b]` and `[[a.b]]`, which name a table or begin a new one in a series. A table is
filled in one place: by its header, by dotted keys of one table, or inline. A name that is taken, or
a table that is reopened in another way, makes the document invalid.
-/

namespace ModuleGraph

/-- A value in a document. Dates and times count as their texts. -/
inductive Toml
  | bool (b : Bool)
  | int (n : Int)
  | float (x : Decimal.Binary64)
  | text (s : String)
  | array (items : List Toml)
  | table (entries : List (String × Toml))
  deriving Repr

namespace Toml

/-- A document that is being built. -/
inductive Tree
  /-- A value to which nothing can be added. -/
  | closed (value : Toml)
  /-- A table. It is implicit if no header names it, dotted if keys of another table fill it. -/
  | table (implicit dotted : Bool) (entries : List (String × Tree))
  /-- A series of tables under one name; the last one is open. -/
  | series (tables : List Tree)
  deriving Repr

inductive Statement
  | entry (path : List String) (name : String) (value : Toml)
  | table (path : List String) (name : String)
  | series (path : List String) (name : String)
  deriving Repr

namespace Tree

def empty : Tree := table false false []

/-- Changes what is under a key, or puts something there. -/
def alter? (key : String) (f : Option Tree → Option Tree) :
    List (String × Tree) → Option (List (String × Tree))
  | [] => (f none).map fun t => [(key, t)]
  | (k, t) :: es =>
    if k = key then (f (some t)).map fun t => (k, t) :: es
    else (alter? key f es).map ((k, t) :: ·)

def alterLast? (f : Tree → Option Tree) : List Tree → Option (List Tree)
  | [] => none
  | [t] => (f t).map ([·])
  | t :: ts => (alterLast? f ts).map (t :: ·)

/-- Changes the table that a path leads to. Tables that are not there are made; of a series the path
takes the last table. A dotted path enters only tables that no header names. -/
def change? (dotted : Bool) (f : Tree → Option Tree) : List String → Tree → Option Tree
  | [], t => f t
  | key :: path, table i d es =>
    (alter? key (fun
      | none => change? dotted f path (table true dotted [])
      | some (table i' d' es') =>
        if dotted && !i' then none else change? dotted f path (table i' d' es')
      | some (series ts) => (alterLast? (change? dotted f path) ts).map series
      | some (closed _) => none) es).map (table i d)
  | _ :: _, _ => none

/-- Puts a value under a new name of a table that is filled in this way. -/
def put? (dotted : Bool) (name : String) (value : Toml) : Tree → Option Tree
  | table i d es =>
    if d != dotted then none
    else (alter? name (fun
      | none => some (closed value)
      | some _ => none) es).map (table i d)
  | _ => none

def insert? (path : List String) (name : String) (value : Toml) (t : Tree) : Option Tree :=
  change? true (put? (!path.isEmpty) name value) path t

def openTable? (name : String) : Tree → Option Tree
  | table i d es =>
    (alter? name (fun
      | none => some empty
      | some (table true false es') => some (table false false es')
      | some _ => none) es).map (table i d)
  | _ => none

/-- Begins a table in a series. -/
def openNext? (name : String) : Tree → Option Tree
  | table i d es =>
    (alter? name (fun
      | none => some (series [empty])
      | some (series ts) => some (series (ts ++ [empty]))
      | some _ => none) es).map (table i d)
  | _ => none

mutual

def value : Tree → Toml
  | closed v => v
  | table _ _ es => .table (entryValues es)
  | series ts => .array (tableValues ts)

def entryValues : List (String × Tree) → List (String × Toml)
  | [] => []
  | (k, t) :: es => (k, t.value) :: entryValues es

def tableValues : List Tree → List Toml
  | [] => []
  | t :: ts => t.value :: tableValues ts

end

end Tree

/-- A document and the path of the table that its last header names. -/
structure Document where
  tree : Tree := .empty
  current : List String := []

def Document.add? (d : Document) : Statement → Option Document
  | .entry path name v =>
    (Tree.change? false (Tree.insert? path name v) d.current d.tree).map ({ d with tree := · })
  | .table path name =>
    (Tree.change? false (Tree.openTable? name) path d.tree).map (⟨·, path ++ [name]⟩)
  | .series path name =>
    (Tree.change? false (Tree.openNext? name) path d.tree).map (⟨·, path ++ [name]⟩)

/-- The value of a list of statements, if they make a document. -/
def ofStatements? (ss : List Statement) : Option Toml :=
  (ss.foldlM Document.add? {}).map (·.tree.value)

def ofEntries? (es : List (List String × String × Toml)) : Option Toml :=
  (es.foldlM (fun t e => Tree.insert? e.1 e.2.1 e.2.2 t) Tree.empty).map Tree.value

end Toml

end ModuleGraph
