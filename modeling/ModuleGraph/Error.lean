/-!
# Errors

Causes for which a question about a catalog, a repository or a setting has no answer, and their
texts.
-/

namespace ModuleGraph

inductive CatalogError
  /-- No usable path is declared for the module. -/
  | notFound (name : String)
  /-- The definitions in `source` cannot be read. -/
  | unreadable (source reason : String)
  /-- The definitions in `source` are no definition text. -/
  | malformed (source reason : String)
  /-- The pattern is neither a listed name nor a glob. -/
  | invalidPattern (pattern reason : String)
  deriving Repr, DecidableEq

namespace CatalogError

def text : CatalogError → String
  | notFound n => s!"module '{n}' not found"
  | unreadable s r => s!"failed to read module definitions '{s}': {r}"
  | malformed s r => s!"failed to parse module definitions '{s}': {r}"
  | invalidPattern p r => s!"invalid module pattern '{p}': {r}"

/-- The outside reason that the error passes on. -/
def cause? : CatalogError → Option String
  | unreadable _ r => some r
  | _ => none

end CatalogError

inductive WorktreeError
  /-- No repository encloses the directory. -/
  | notFound (path : String)
  /-- The repository found has no worktree. -/
  | bare (path : String)
  deriving Repr, DecidableEq

namespace WorktreeError

def text : WorktreeError → String
  | notFound p => "gix error: failed to discover repository: " ++
      s!"Could not find a git repository in '{p}' or in any of its parents"
  | bare p => s!"repository at '{p}' has no worktree (bare repository)"

end WorktreeError

/-- A setting whose value is of the right type and still of no use. -/
structure InvalidSetting where
  group : String
  key : String
  reason : String
  deriving Repr, DecidableEq

def InvalidSetting.text (e : InvalidSetting) : String :=
  s!"invalid value for '{e.key}' in section '[{e.group}]': {e.reason}"

inductive Error
  | catalog (e : CatalogError)
  | worktree (e : WorktreeError)
  | setting (e : InvalidSetting)
  deriving Repr, DecidableEq

namespace Error

def text : Error → String
  | catalog e => "catalog error: " ++ e.text
  | worktree e => "git error: " ++ e.text
  | setting e => "config error: " ++ e.text

def isNotFound : Error → Bool
  | catalog (.notFound _) => true
  | _ => false

/-- The error's text followed by that of each cause behind it. -/
def chain : Error → List String
  | catalog e => (catalog e).text :: e.text :: e.cause?.toList
  | worktree e => [(worktree e).text, e.text]
  | setting e => [(setting e).text, e.text]

end Error

end ModuleGraph
