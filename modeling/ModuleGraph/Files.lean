/-!
# Access to files

What the program asks of the files around it, and the causes for which they refuse. Relative paths
start at the current directory.
-/

namespace ModuleGraph

inductive FileError
  | notFound
  | notDirectory
  | isDirectory
  | alreadyExists
  | nameTooLong
  /-- The path holds a NUL. -/
  | badPath
  | other (text : String)
  deriving Repr, DecidableEq

def FileError.text : FileError → String
  | notFound => "No such file or directory (os error 2)"
  | notDirectory => "Not a directory (os error 20)"
  | isDirectory => "Is a directory (os error 21)"
  | alreadyExists => "File exists (os error 17)"
  | nameTooLong => "File name too long (os error 36)"
  | badPath => "file name contained an unexpected NUL byte"
  | other t => t

def notUtf8 : String := "stream did not contain valid UTF-8"

inductive FileKind
  | file
  | directory
  deriving Repr, DecidableEq

class Files (m : Type → Type) where
  /-- What lies at a path, if anything does. -/
  kind? : String → m (Option FileKind)
  read : String → m (Except FileError ByteArray)
  /-- Makes a directory and those above it, unless it is there. -/
  makeDirectory : String → m (Except FileError Unit)
  /-- Writes at the end of a file, which is made if it is not there. -/
  append : String → ByteArray → m (Except FileError Unit)

namespace Files

variable {m : Type → Type} [Monad m] [Files m]

def isDirectory (path : String) : m Bool :=
  return (← kind? path) = some .directory

def isFile (path : String) : m Bool :=
  return (← kind? path) = some .file

def isPresent (path : String) : m Bool :=
  return (← kind? (m := m) path).isSome

end Files

end ModuleGraph
