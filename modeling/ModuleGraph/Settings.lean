import ModuleGraph.Settings.Conversion
import ModuleGraph.Settings.Source

/-!
# Settings

What can be set, in two groups: `global` for logging, `catalog` for where definitions are. Settings
come in layers: defaults, files and documents in order, the environment, and overrides. Each layer
is laid over those below it, so a setting has the value of the highest layer that gives one.
-/

namespace ModuleGraph

structure Settings where
  consoleLevel : Log.Level := .warn
  fileLevel : Log.Level := .debug
  logFile : Option String := none
  /-- The definition file. -/
  catalogFile : String := ".modgit"
  /-- The definition file is looked for from the root of the worktree. -/
  discover : Bool := true
  deriving Repr, DecidableEq

namespace Settings

/-- Settings that are written together. -/
structure Group where
  name : String
  /-- What a value of the group has to be. -/
  expected : String
  settings : List String

def globalGroup : Group :=
  ⟨"global", "struct GlobalConfig", ["output_log_level", "file_log_level", "log_file"]⟩

def catalogGroup : Group := ⟨"catalog", "struct CatalogConfig", ["file", "discover"]⟩

def groupNames : List String := [globalGroup.name, catalogGroup.name]

def choice (names : List String) : String :=
  match names.map fun n => s!"\x60{n}\x60" with
  | [a, b] => s!"{a} or {b}"
  | ns => "one of " ++ ", ".intercalate ns

/-- Fields with other names than these are refused. -/
def checkNames (names : List String) (fields : Fields) : Except Misfit Unit :=
  match fields.find? (·.1 ∉ names) with
  | none => .ok ()
  | some (k, _) => .error (.refused s!"unknown field \x60{k}\x60, expected {choice names}")

namespace Group

/-- A group is a table of its settings, or a list of them in order. -/
def check (g : Group) : Value → Except Misfit Unit
  | .table _ fields => checkNames g.settings fields
  | .list .. => .ok ()
  | v => .error (.refused s!"invalid type: {v.noun}, expected {g.expected}")

/-- The value given for the setting at an index, with its key. -/
def find? (g : Group) (index : Nat) : Value → Option (String × Value)
  | .table _ fields => do
    let name ← g.settings[index]?
    let v ← Value.get? fields name
    return (s!"{g.name}.{name}", v)
  | .list _ items => items[index]?.map (s!"{g.name}[{index}]", ·)
  | _ => none

variable {α : Type}

def read (g : Group) (index : Nat) (convert : Value → Except Misfit α) (missing : α) (v : Value) :
    Except Fault α :=
  match g.find? index v with
  | none => .ok missing
  | some (key, v) => (convert v).mapError (.misfit key)

def open? (g : Group) (fields : Fields) : Except Fault Value :=
  let v := (Value.get? fields g.name).getD .empty
  (g.check v).mapError (.misfit g.name) |>.map fun _ => v

end Group

def ofFields (fields : Fields) : Except Fault Settings := do
  (checkNames groupNames fields).mapError (.misfit "")
  let standard : Settings := {}
  let global ← globalGroup.open? fields
  let consoleLevel ← globalGroup.read 0 Value.level standard.consoleLevel global
  let fileLevel ← globalGroup.read 1 Value.level standard.fileLevel global
  let logFile ← globalGroup.read 2 Value.optionalText standard.logFile global
  let catalog ← catalogGroup.open? fields
  let catalogFile ← catalogGroup.read 0 Value.text standard.catalogFile catalog
  let discover ← catalogGroup.read 1 Value.truth standard.discover catalog
  return { consoleLevel, fileLevel, logFile, catalogFile, discover }

/-- What settings are made from, besides defaults. -/
structure Layers where
  sources : List Source := []
  /-- The name that the variables of the environment begin with. -/
  program : Option String := none
  overrides : List (String × Scalar) := []
  deriving Repr, DecidableEq

def lay (root : Value) (entry : String × Value) : Value :=
  root.update (Key.path entry.1) (Value.mergeInto entry.2)

def layAll (fields : Fields) : Value := fields.foldl lay .empty

def fieldsOf : Value → Fields
  | .table _ fields => fields
  | _ => []

namespace Layers

def checkOverrides (l : Layers) : Except Fault Unit :=
  match l.overrides.find? fun o => (Key.parse? o.1).isNone with
  | none => .ok ()
  | some (key, _) => .error (.badKey key)

def overrideFields (l : Layers) : Fields := l.overrides.map fun o => (o.1, .scalar none o.2)

def combine (l : Layers) (environment : Environment) (given : List Fields) :
    Except Fault Settings :=
  let named := (l.program.map (Environment.fields · environment)).getD []
  ofFields (fieldsOf (layAll (given.flatten ++ named ++ l.overrideFields)))

end Layers

def emptyFile : InvalidSetting := ⟨"catalog", "file", "definition file path is empty"⟩

def directoryAsLog (path : String) : InvalidSetting := ⟨"global", "log_file", s!"{path} is a directory"⟩

variable {m : Type → Type} [Monad m] [Files m]

/-- Refuses values that fit their types and cannot be used. -/
def validate (s : Settings) : m (Except Fault Settings) := do
  if s.catalogFile = "" then return .error (.unusable emptyFile)
  match s.logFile with
  | none => return .ok s
  | some path =>
    if ← Files.isDirectory path then return .error (.unusable (directoryAsLog path))
    return .ok s

def load (directory : String) (environment : Environment) (l : Layers) :
    m (Except Fault Settings) := do
  match l.checkOverrides with
  | .error e => return .error e
  | .ok () =>
    match ← Source.fieldsOfEach directory l.sources with
    | .error e => return .error e
    | .ok given =>
      match l.combine environment given with
      | .error e => return .error e
      | .ok s => s.validate

/-- The settings by key, in the order of the keys. -/
def entries (s : Settings) : List (String × String) :=
  [("catalog.discover", toString s.discover), ("catalog.file", s.catalogFile),
    ("global.file_log_level", toString s.fileLevel.toNat), ("global.log_file", s.logFile.getD ""),
    ("global.output_log_level", toString s.consoleLevel.toNat)]

/-- Keys and values in two columns. -/
def optionLines (s : Settings) : List String :=
  let width := (s.entries.map (·.1.length)).foldl max 0
  s.entries.map fun e => e.1.pushn ' ' (width - e.1.length) ++ " = " ++ e.2

end Settings

end ModuleGraph
