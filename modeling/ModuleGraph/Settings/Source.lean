import ModuleGraph.FilePath
import ModuleGraph.Files
import ModuleGraph.Settings.Fault
import ModuleGraph.Settings.Key
import ModuleGraph.Decimal.Reader
import ModuleGraph.Text.Casing
import ModuleGraph.Text.Utf8
import ModuleGraph.Toml.Reader

/-!
# Sources of settings

Documents, files and the environment, each as the fields it gives. A file may be named without the
ending `.toml`. The variable `NAME_GROUP__KEY` of the environment gives `group.key`; its text counts
as a truth value or as a number if it reads as one.
-/

namespace ModuleGraph.Settings

inductive Source
  | document (text : String)
  /-- A file that is not required is left out if it is not there. -/
  | file (path : String) (required : Bool)
  deriving Repr, DecidableEq

abbrev Fields := List (String × Value)

abbrev Environment := List (String × String)

def ofDocument (origin : Option String) (text : String) : Except Fault Fields :=
  match Toml.parse? text with
  | some (.table entries) => .ok (Value.ofEntries origin entries)
  | _ => .error .malformed

def textOf (bytes : ByteArray) : String :=
  String.ofList (Text.dropByteOrderMark (Text.decodeLossy bytes).toList)

/-- The fields in a file's content. Its values name the file as seen from the current directory. -/
def ofFile (directory path : String) (required : Bool) :
    Except FileError ByteArray → Except Fault Fields
  | .ok bytes => ofDocument (some (FilePath.relativeTo directory path)) (textOf bytes)
  | .error e => if required then .error (.unreadable e.text) else .ok []

namespace Environment

/-- Two low lines separate the parts of a key. -/
def separate : List Char → List Char
  | '_' :: '_' :: s => '.' :: separate s
  | c :: s => c :: separate s
  | [] => []

def scalarOf (text : String) : Scalar :=
  let word := Text.lowercase text
  if word = "true" then .bool true
  else if word = "false" then .bool false
  else
    match Decimal.integer? text with
    | some n => .int n
    | none =>
      match Decimal.number? text with
      | some x => .float x
      | none => .text text

def dropStart? : List Char → List Char → Option (List Char)
  | [], s => some s
  | c :: cs, d :: s => if c = d then dropStart? cs s else none
  | _ :: _, [] => none

/-- The key that a variable's name spells, if it is one of this program's. -/
def key? (program name : String) : Option String :=
  (dropStart? (Text.lowercase (program ++ "_")).toList (Text.lowercase name).toList).map
    fun s => String.ofList (separate s)

def fields (program : String) (e : Environment) : Fields :=
  e.filterMap fun v =>
    (key? program v.1).map (·, .scalar (some "the environment") (scalarOf v.2))

end Environment

variable {m : Type → Type} [Monad m] [Files m]

/-- Where the file of this name is: there, or with the ending `.toml`. -/
def findFile (directory path : String) : m (Option String) := do
  let exact := FilePath.join directory path
  if ← Files.isFile exact then return some exact
  let lengthened := FilePath.lengthen exact ".toml"
  if ← Files.isFile lengthened then return some lengthened
  return none

namespace Source

def fields (directory : String) : Source → m (Except Fault Fields)
  | document text => return ofDocument none text
  | file path required => do
    match ← findFile directory path with
    | none => return if required then .error (.missingFile path) else .ok []
    | some found => return ofFile directory found required (← Files.read found)

/-- The fields that each source gives, or the fault of the first that has one. -/
def fieldsOfEach (directory : String) : List Source → m (Except Fault (List Fields))
  | [] => return .ok []
  | s :: ss => do
    match ← s.fields directory with
    | .error e => return .error e
    | .ok first => return (← fieldsOfEach directory ss).map (first :: ·)

/-- The files among the sources that are, or have to be, there. -/
def files : List Source → m (List String)
  | [] => return []
  | document _ :: ss => files ss
  | file path required :: ss => do
    let rest ← files ss
    if required then return path :: rest
    if ← Files.isPresent path then return path :: rest
    return rest

end Source

end ModuleGraph.Settings
