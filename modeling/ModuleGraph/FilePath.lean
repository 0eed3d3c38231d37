import ModuleGraph.Text.Lines

/-!
# File paths

Paths of files as texts, absolute or relative to some directory. Empty names and `.` between
separators lead nowhere; a leading `.` of a relative path is kept.
-/

namespace ModuleGraph.FilePath

def isAbsolute (path : String) : Bool := path.startsWith "/"

/-- The path as seen from a directory. -/
def join (directory path : String) : String :=
  if isAbsolute path || directory = "" then path
  else if directory.endsWith "/" then directory ++ path
  else directory ++ "/" ++ path

def parts (path : String) : List String := (Text.splitAt '/' path.toList).map String.ofList

/-- A part that leads nowhere. -/
def isIdle (part : String) : Bool := part = "" || part = "."

def names (path : String) : List String :=
  match parts path with
  | "." :: ps => "." :: ps.filter (!isIdle ·)
  | ps => ps.filter (!isIdle ·)

/-- Takes away the parts at the end that lead nowhere, but not the first one of the path. -/
def dropIdleEnd (ps : List String) : List String :=
  match ps with
  | [] => []
  | first :: rest => first :: (rest.reverse.dropWhile isIdle).reverse

def ofParts (ps : List String) : String :=
  match ps with
  | [""] => "/"
  | _ => "/".intercalate ps

/-- The path without its last name; none if there is no name. -/
def parent? (path : String) : Option String :=
  match dropIdleEnd (parts path) with
  | [] => none
  | [""] => none
  | [_] => some ""
  | ps => some (ofParts (dropIdleEnd ps.dropLast))

/-- The path with its last name lengthened, unless it has no name to lengthen. -/
def lengthen (path ending : String) : String :=
  let ps := dropIdleEnd (parts path)
  match ps.getLast? with
  | none => path
  | some last => if isIdle last || last = ".." then path else ofParts ps ++ ending

/-- What the two lists have in front of them alike is left out. -/
def dropShared : List String → List String → List String × List String
  | a :: as, b :: bs => if a = b then dropShared as bs else (a :: as, b :: bs)
  | as, bs => (as, bs)

/-- An absolute path as seen from an absolute directory, `..` for each step out of it. -/
def relativeTo (directory path : String) : String :=
  let (rest, above) := dropShared (names path) (names directory)
  "/".intercalate (above.map (fun _ => "..") ++ rest)

end ModuleGraph.FilePath
