import ModuleGraph.Json.Basic
import ModuleGraph.Visibility

/-!
# Reports

Modules, resolutions, plans and partitions as the program prints them: a text with one entry a line,
or a JSON document.
-/

namespace ModuleGraph.Report

inductive Format
  | text
  | json
  deriving Repr, DecidableEq

def joinLines (lines : List String) : String := "\n".intercalate lines

def joinBlanks (words : List String) : String := " ".intercalate words

/-- A module on one line: its name, its labels, and on demand its paths. -/
def listLine (withPaths : Bool) (m : Module) : String :=
  m.name ++ String.join (m.flags.labels.map fun l => s!" [{l}]") ++
    if withPaths then ": " ++ joinBlanks m.paths else ""

/-- A line for each name that gives a module. -/
def list (d : Definitions) (names : List String) (withPaths : Bool) : List String :=
  (names.filterMap d.load).map (listLine withPaths)

def moduleLines (m : Module) : List String :=
  ["name: " ++ m.name, "paths: " ++ joinBlanks m.paths] ++
    (if m.dependsOn = [] then []
      else ["depends: " ++ joinBlanks m.dependsOn ++ if m.inheritedDepends then " (inherited)" else ""]) ++
    if m.flags.labels = [] then [] else ["flags: " ++ joinBlanks m.flags.labels]

def moduleJson (m : Module) : Json :=
  .object [("name", .string m.name), ("paths", .strings m.paths),
    ("depends_on", .strings m.dependsOn), ("inherited_depends", .bool m.inheritedDepends),
    ("flags", .strings m.flags.labels)]

def module (m : Module) : Format → String
  | .text => joinLines (moduleLines m)
  | .json => (moduleJson m).pretty

def resolutionJson (r : Resolution) : Json :=
  .object [("module", .string r.module), ("paths", .strings r.paths)]

def resolution (r : Resolution) : Format → String
  | .text => joinLines r.paths
  | .json => (resolutionJson r).pretty

def rawLines (p : Plan) : List String :=
  p.shown.map ("include " ++ ·) ++ p.hidden.map ("exclude " ++ ·)

def patternsJson (p : Plan) : Json :=
  .object [("module", .string p.module), ("patterns", .strings p.sparsePatterns)]

def rawJson (p : Plan) : Json :=
  .object [("exclude", .strings p.hidden), ("include", .strings p.shown),
    ("module", .string p.module)]

/-- A plan as patterns, or raw: what is shown and what is hidden. -/
def plan (p : Plan) (raw : Bool) : Format → String
  | .text => joinLines (if raw then rawLines p else p.sparsePatterns)
  | .json => (if raw then rawJson p else patternsJson p).pretty

def partitionLines (p : Path.Partition) : List String :=
  p.inside.map ("+ " ++ ·) ++ p.outside.map ("- " ++ ·)

def partitionJson (p : Path.Partition) : Json :=
  .object [("inside", .strings p.inside), ("outside", .strings p.outside)]

/-- A partition, or only the files outside. -/
def partition (p : Path.Partition) (outsideOnly : Bool) : Format → String
  | .text => joinLines (if outsideOnly then p.outside else partitionLines p)
  | .json => (if outsideOnly then .strings p.outside else partitionJson p).pretty

end ModuleGraph.Report
