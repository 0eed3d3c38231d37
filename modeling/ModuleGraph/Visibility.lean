import ModuleGraph.Resolution

/-!
# Visibility plans

A plan hides the paths of the modules that a target does not need. Everything is shown at first; a
path of another module is hidden unless it is, or encloses, a path the target needs or a path of an
infrastructure module.
-/

namespace ModuleGraph

structure Plan where
  module : String
  /-- Patterns of what is shown at first. -/
  shown : List String
  /-- Directories hidden with all they hold, each once. -/
  hidden : List String
  warnings : List Warning
  deriving Repr, DecidableEq

namespace Plan

/-- The pattern for the whole tree. -/
def everything : String := "/*"

/-- The pattern that takes a directory out of what is shown. -/
def exclusion (path : String) : String := s!"!/{path}/"

def sparsePatterns (p : Plan) : List String := p.shown ++ p.hidden.map exclusion

/-- Hiding `path` hides nothing of `kept`. -/
def canHide (path : String) (kept : List String) : Bool :=
  !kept.any fun k => k == path || Path.isAncestor path k

def otherNames (d : Definitions) (target : Module) : List String :=
  d.names.filter (· ≠ target.name)

def otherModules (d : Definitions) (target : Module) : List Module :=
  (otherNames d target).filterMap d.load

/-- Warnings for the listed modules that cannot be loaded. -/
def skipWarnings (d : Definitions) (target : Module) : List Warning :=
  ((otherNames d target).filter fun n => (d.load n).isNone).map .moduleSkipped

/-- The paths of the other modules that are infrastructure. -/
def protectedPaths (others : List Module) : List String :=
  (others.filter Module.isInfrastructure).flatMap Module.paths

/-- The paths to hide, given the paths the target needs and the other modules. -/
def hiddenPaths (needed : List String) (others : List Module) : List String :=
  firsts (((others.filter (!·.isInfrastructure)).flatMap Module.paths).filter fun path =>
    canHide path needed && canHide path (protectedPaths others))

end Plan

def plan (d : Definitions) (target : Module) : Plan where
  module := target.name
  shown := [Plan.everything]
  hidden := Plan.hiddenPaths (resolve d target).paths (Plan.otherModules d target)
  warnings := (resolve d target).warnings ++ Plan.skipWarnings d target

end ModuleGraph
