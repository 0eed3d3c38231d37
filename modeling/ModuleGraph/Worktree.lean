import ModuleGraph.Definitions
import ModuleGraph.FilePath
import ModuleGraph.Files
import ModuleGraph.Text.Utf8

/-!
# Worktrees

The root of the worktree that encloses a directory. A repository keeps its own files in a directory
with a `HEAD`, `objects` and `refs`, usually named `.git`; the worktree is the directory around it,
unless the repository is bare. The search goes from the directory upwards and ends at the first
repository.
-/

namespace ModuleGraph.Worktree

/-- Names with each `..` resolved against the name before it; none if one leads above the first. -/
def resolveNames : List String → List String → Option (List String)
  | done, [] => some done.reverse
  | done, ".." :: ns =>
    match done with
    | [] => none
    | _ :: done => resolveNames done ns
  | done, n :: ns => resolveNames (n :: done) ns

/-- An absolute path without `..`. A path that has none is left as it is. -/
def normalize? (path : String) : Option String :=
  if ".." ∈ FilePath.names path then
    (resolveNames [] (FilePath.names path)).map fun ns => "/" ++ "/".intercalate ns
  else some path

/-- A path and those above it, given a bound on their number. -/
def ancestors : Nat → String → List String
  | 0, _ => []
  | n + 1, path => path :: ((FilePath.parent? path).map (ancestors n)).getD []

/-- Where the own files of a repository at a directory can be. -/
def candidates (directory : String) : List String :=
  let inside := FilePath.join directory ".git"
  if (FilePath.names directory).getLast? = some ".git" then [directory, inside]
  else [inside, directory]

variable {m : Type → Type} [Monad m] [Files m]

def isRepository (path : String) : m Bool := do
  if !(← Files.isFile (FilePath.join path "HEAD")) then return false
  if !(← Files.isDirectory (FilePath.join path "objects")) then return false
  Files.isDirectory (FilePath.join path "refs")

def firstRepository? : List String → m (Option String)
  | [] => return none
  | path :: paths => do
    if ← isRepository path then return some path
    firstRepository? paths

/-- The last section that says so decides whether a repository is bare. -/
def saysBare (settings : Definitions) : Bool :=
  (settings.sections.filter fun s => Text.sameAscii s.name "core" && s.label.isNone).foldl
    (fun before s => s.flagAfter "bare" before) false

def bareOf : Except FileError ByteArray → Bool
  | .error _ => false
  | .ok bytes =>
    match Definitions.parse "" (Text.decodeLossy bytes) with
    | .error _ => false
    | .ok settings => saysBare settings

def root (directory : String) : m (Except WorktreeError String) := do
  match normalize? directory with
  | none => return .error (.notFound directory)
  | some start =>
    if !(← Files.isDirectory start) then return .error (.notFound directory)
    let above := ancestors (FilePath.parts start).length start
    match ← firstRepository? (above.flatMap candidates) with
    | none => return .error (.notFound directory)
    | some found =>
      if bareOf (← Files.read (FilePath.join found "config")) then
        return .error (.bare directory)
      return .ok ((FilePath.parent? found).getD found)

/-- The directory from which a definition file is seen, and why it is not the root of a worktree if
one was looked for. An absolute path is seen from anywhere. -/
def base (directory file : String) (discover : Bool) : m (String × Option WorktreeError) := do
  if !discover || FilePath.isAbsolute file then return (directory, none)
  match ← root directory with
  | .ok top => return (top, none)
  | .error e => return (directory, some e)

def definitionsPath (directory file : String) (discover : Bool) : m String :=
  return FilePath.join (← base directory file discover).1 file

end ModuleGraph.Worktree
