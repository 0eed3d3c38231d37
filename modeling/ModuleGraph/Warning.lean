/-!
# Warnings

What can go wrong inside a resolution or a plan without stopping it.
-/

namespace ModuleGraph

inductive Warning
  /-- `module` needs a name that no definition gives. -/
  | missingDependency (module dependency : String)
  /-- `dependency` had been visited when `module` named it again. -/
  | circularDependency (module dependency : String)
  /-- The traversal reached `module` below the last level it follows. -/
  | depthExceeded (module : String) (depth : Nat)
  /-- A nested module owns a path outside every path of its parent. -/
  | pathOutsideParent (module parent path : String)
  /-- A listed module could not be loaded. -/
  | moduleSkipped (module : String)
  deriving Repr, DecidableEq

namespace Warning

/-- The kind of warning, as written in records. -/
def kind : Warning → String
  | missingDependency .. => "missing-dependency"
  | circularDependency .. => "circular-dependency"
  | depthExceeded .. => "depth-exceeded"
  | pathOutsideParent .. => "path-outside-parent"
  | moduleSkipped .. => "module-skipped"

/-- The kind of warning, as written in log lines. -/
def logKind : Warning → String
  | missingDependency .. => "MissingDependency"
  | circularDependency .. => "CircularDependency"
  | depthExceeded .. => "DepthExceeded"
  | pathOutsideParent .. => "PathOutsideParent"
  | moduleSkipped .. => "ModuleSkipped"

def text : Warning → String
  | missingDependency m d => s!"dependency '{d}' of module '{m}' not found"
  | circularDependency m d =>
    s!"circular dependency detected: '{d}' (from '{m}') already visited, skipping"
  | depthExceeded m n => s!"dependency depth limit exceeded at module '{m}' (depth {n})"
  | pathOutsideParent m p path => s!"path '{path}' of module '{m}' is not under any path of parent '{p}'"
  | moduleSkipped m => s!"module '{m}' could not be loaded, skipping"

end Warning

end ModuleGraph
