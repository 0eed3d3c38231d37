import ModuleGraph.Definitions
import ModuleGraph.Warning

/-!
# Resolution

The paths that a module needs: its own and those of the modules it depends on, however indirectly.
Dependencies are followed depth first in the order declared, each module once, down to level
`maxDepth`. The traversal is a list of visits, one per dependency entry met; paths and warnings are
read off that list.
-/

namespace ModuleGraph

structure Resolution where
  module : String
  /-- Each path once, in the order first met. -/
  paths : List String
  warnings : List Warning
  deriving Repr, DecidableEq

namespace Resolution

/-- The last level that is followed; the module asked for is level 0. -/
def maxDepth : Nat := 50

/-- What became of one dependency entry. -/
inductive Visit
  /-- The name had been met before. -/
  | repeated (referrer name : String)
  /-- The name lies below the last level. -/
  | tooDeep (name : String) (depth : Nat)
  /-- No definition gives the name. -/
  | missing (referrer name : String)
  | expanded (module : Module) (depth : Nat)
  deriving Repr, DecidableEq

/-- Visits names one after the other, each with the names seen before it. -/
def visitAll (visit : List String → String → List Visit × List String) :
    List String → List String → List Visit × List String
  | seen, [] => ([], seen)
  | seen, name :: names =>
    let first := visit seen name
    let others := visitAll visit first.2 names
    (first.1 ++ others.1, others.2)

/-- Visits a name and, if it is new and gives a module, the dependencies of that module. `room` is
the number of levels left, the one of the name included. -/
def visit (load : String → Option Module) :
    Nat → String → List String → String → List Visit × List String
  | 0, referrer, seen, name =>
    if name ∈ seen then ([.repeated referrer name], seen)
    else ([.tooDeep name (maxDepth + 1)], seen)
  | room + 1, referrer, seen, name =>
    if name ∈ seen then ([.repeated referrer name], seen)
    else
      match load name with
      | none => ([.missing referrer name], name :: seen)
      | some m =>
        let below := visitAll (visit load room m.name) (name :: seen) m.dependsOn
        (.expanded m (maxDepth - room) :: below.1, below.2)

def visits (load : String → Option Module) (target : Module) : List Visit :=
  (visitAll (visit load maxDepth target.name) [target.name] target.dependsOn).1

/-- One warning for each own path of a nested module that lies outside its parent's paths. -/
def parentWarnings (load : String → Option Module) (m : Module) : List Warning :=
  match m.parent?.bind load with
  | none => []
  | some parent =>
    (m.paths.filter fun path => !Path.belongsTo path parent.paths).map
      (.pathOutsideParent m.name parent.name ·)

namespace Visit

def paths : Visit → List String
  | expanded m _ => m.paths
  | _ => []

def warnings (load : String → Option Module) : Visit → List Warning
  | repeated referrer name => [.circularDependency referrer name]
  | tooDeep name depth => [.depthExceeded name depth]
  | missing referrer name => [.missingDependency referrer name]
  | expanded m _ => parentWarnings load m

end Visit

end Resolution

/-- Resolves a module against a catalog. The module itself is taken as given. -/
def resolve (d : Definitions) (target : Module) : Resolution where
  module := target.name
  paths := firsts (target.paths ++ (Resolution.visits d.load target).flatMap Resolution.Visit.paths)
  warnings := Resolution.parentWarnings d.load target ++
    (Resolution.visits d.load target).flatMap (Resolution.Visit.warnings d.load)

end ModuleGraph
