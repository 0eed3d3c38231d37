import ModuleGraph.Log.Event
import ModuleGraph.Selection
import ModuleGraph.Visibility

/-!
# Steps of an answer as log events

What the program says while it loads, selects, resolves and plans. The events are read off the same
definitions that give the answers: one walk over the visits of a resolution, one over the paths that
a plan judges.
-/

namespace ModuleGraph.Log

def catalogEvent (severity : Severity) (message : String) (fields : List (String × String)) : Event :=
  ⟨severity, "modgit::catalog", message, fields⟩

def resolutionEvent (severity : Severity) (message : String) (fields : List (String × String)) :
    Event :=
  ⟨severity, "modgit::resolve", message, fields⟩

def planEvent (severity : Severity) (message : String) (fields : List (String × String)) : Event :=
  ⟨severity, "modgit::visibility", message, fields⟩

def warningEvent (w : Warning) : Event := ⟨.warn, "modgit::error", w.text, [("kind", w.logKind)]⟩

/-- A value that is no word for truth or falsehood is noted. -/
def unknownWord (e : Definitions.Entry) : List Event :=
  match e.value with
  | none => []
  | some v =>
    if (Definitions.Section.truth? v).isSome then []
    else
      [catalogEvent .debug "Unrecognised boolean, treating as false"
        [("value", Text.lowerAscii (Text.trim v))]]

def flagEvents (s : Definitions.Section) : List Event :=
  ["readonly", "ownersonly"].flatMap fun key => ((s.last? key).map unknownWord).getD []

def readingEvents (d : Definitions) (name : String) : List Event :=
  (d.sectionsOf name).flatMap flagEvents ++
    match d.own? name with
    | none => [catalogEvent .trace "No paths declared" [("module", name)]]
    | some m =>
      [catalogEvent .trace "Loaded module"
        [("module", name), ("paths", toString m.paths.length),
          ("depends", toString m.dependsOn.length)]]

def inheritingEvents (name : String) (parent : Option Module) : List Event :=
  match parent with
  | none => []
  | some p =>
    if p.dependsOn = [] then []
    else [catalogEvent .trace "Inheriting parent dependencies" [("module", name), ("parent", p.name)]]

/-- Loading a module, and its parents as far as they are asked for dependencies. -/
def loadingEvents (d : Definitions) (name : String) : List Event :=
  readingEvents d name ++
    match d.own? name with
    | none => []
    | some m =>
      if m.dependsOn = [] then
        match _ : parentName? name with
        | none => []
        | some parent => loadingEvents d parent ++ inheritingEvents name (d.load parent)
      else []
termination_by name.length
decreasing_by exact length_lt_of_parentName? ‹parentName? _ = some _›

def parentEvents (d : Definitions) (m : Module) : List Event :=
  match m.parent? with
  | none => []
  | some parent =>
    loadingEvents d parent ++ (Resolution.parentWarnings d.load m).map warningEvent

def addingEvents (name : String) (paths : List String) : List Event :=
  paths.map fun path => resolutionEvent .trace "Adding path" [("module", name), ("path", path)]

def visitEvents (d : Definitions) (seen : List String) : Resolution.Visit → List Event
  | .expanded m depth =>
    loadingEvents d m.name ++
      resolutionEvent .debug "Resolving dependency" [("module", m.name), ("depth", toString depth)] ::
      (parentEvents d m ++ addingEvents m.name (firstsAfter seen m.paths))
  | .missing referrer name =>
    loadingEvents d name ++ [warningEvent (.missingDependency referrer name)]
  | v => (v.warnings d.load).map warningEvent

/-- The events of visits in order, given the paths seen before them. -/
def visitsEvents (d : Definitions) : List String → List Resolution.Visit → List Event
  | _, [] => []
  | seen, v :: vs => visitEvents d seen v ++ visitsEvents d (v.paths ++ seen) vs

def resolvingEvents (d : Definitions) (target : Module) : List Event :=
  let r := resolve d target
  parentEvents d target ++ addingEvents target.name (firsts target.paths) ++
    visitsEvents d target.paths (Resolution.visits d.load target) ++
    [resolutionEvent .debug "Resolved module"
      [("module", target.name), ("paths", toString r.paths.length),
        ("warnings", toString r.warnings.length)]]

def otherEvents (d : Definitions) (name : String) : List Event :=
  loadingEvents d name ++
    if (d.load name).isNone then [warningEvent (.moduleSkipped name)] else []

/-- Judging one path, given the paths hidden before. -/
def pathEvents (needed kept hidden : List String) (name path : String) : List Event :=
  let fields := [("module", name), ("path", path)]
  if !Plan.canHide path needed then [planEvent .trace "Path needed by target" fields]
  else if !Plan.canHide path kept then
    [planEvent .trace "Path encloses an infrastructure module" fields]
  else if path ∈ hidden then []
  else [planEvent .debug "Excluding path" fields]

def judgingPaths (needed kept : List String) (name : String) :
    List String → List String → List Event × List String
  | hidden, [] => ([], hidden)
  | hidden, path :: paths =>
    let hides := Plan.canHide path needed && Plan.canHide path kept
    let rest := judgingPaths needed kept name (if hides then path :: hidden else hidden) paths
    (pathEvents needed kept hidden name path ++ rest.1, rest.2)

def judgingEvents (needed kept : List String) : List String → List Module → List Event
  | _, [] => []
  | hidden, m :: ms =>
    if m.isInfrastructure then
      planEvent .trace "Infrastructure module stays visible" [("module", m.name)] ::
        judgingEvents needed kept hidden ms
    else
      let own := judgingPaths needed kept m.name hidden m.paths
      own.1 ++ judgingEvents needed kept own.2 ms

def planningEvents (d : Definitions) (target : Module) : List Event :=
  let others := Plan.otherModules d target
  resolvingEvents d target ++ (Plan.otherNames d target).flatMap (otherEvents d) ++
    judgingEvents (resolve d target).paths (Plan.protectedPaths others) [] others

/-- Selecting by patterns: those that select nothing are noted, up to the first that is none. -/
def selectingEvents (matcher : Selection.Matcher) (names : List String) :
    List String → List Event
  | [] => []
  | p :: ps =>
    match Selection.ofPattern matcher names p with
    | .error _ => []
    | .ok [] =>
      catalogEvent .warn "Pattern matched no modules" [("pattern", p)] ::
        selectingEvents matcher names ps
    | .ok _ => selectingEvents matcher names ps

end ModuleGraph.Log
