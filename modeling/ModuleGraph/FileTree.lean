import ModuleGraph.FilePath
import ModuleGraph.Files

/-!
# File trees

A tree of directories and files held as a value, with a current directory. Every directory but the
root is listed under its location, the names that lead to it from the root. A path is followed name
by name; each place it passes has to be a directory.
-/

namespace ModuleGraph

inductive FileTree.Node
  | file (content : ByteArray)
  | directory

abbrev FileTree.Location := List String

structure FileTree where
  nodes : List (FileTree.Location × FileTree.Node) := []
  currentDirectory : FileTree.Location := []

namespace FileTree

def node? (t : FileTree) (at_ : Location) : Option Node :=
  if at_ = [] then some .directory else (t.nodes.find? (·.1 = at_)).map (·.2)

def put (t : FileTree) (at_ : Location) (n : Node) : FileTree :=
  { t with nodes := (at_, n) :: t.nodes.filter (·.1 ≠ at_) }

/-- Takes away what lies at a location and below it. -/
def drop (t : FileTree) (at_ : Location) : FileTree :=
  { t with nodes := t.nodes.filter fun e => !at_.isPrefixOf e.1 }

/-- One name further from a place that has to be a directory. -/
def step (t : FileTree) (at_ : Location) (name : String) : Except FileError Location :=
  match t.node? at_ with
  | none => .error .notFound
  | some (.file _) => .error .notDirectory
  | some .directory =>
    if name = "" ∨ name = "." then .ok at_
    else if name = ".." then .ok at_.dropLast
    else if 255 < name.utf8ByteSize then .error .nameTooLong
    else .ok (at_ ++ [name])

def start (t : FileTree) (path : String) : Location :=
  if path.startsWith "/" then [] else t.currentDirectory

/-- Where a path leads. There need not be anything. -/
def locate (t : FileTree) (path : String) : Except FileError Location :=
  if path = "" then .error .notFound
  else if path.contains '\x00' then .error .badPath
  else (FilePath.parts path).foldlM t.step (t.start path)

def find (t : FileTree) (path : String) : Except FileError Node :=
  match t.locate path with
  | .error e => .error e
  | .ok at_ =>
    match t.node? at_ with
    | none => .error .notFound
    | some n => .ok n

def kind? (t : FileTree) (path : String) : Option FileKind :=
  match t.find path with
  | .ok (.file _) => some .file
  | .ok .directory => some .directory
  | .error _ => none

def read (t : FileTree) (path : String) : Except FileError ByteArray :=
  match t.find path with
  | .ok (.file b) => .ok b
  | .ok .directory => .error .isDirectory
  | .error e => .error e

/-- Makes each directory on the way that is not there. What is made before a failure stays. -/
def makeAlong (t : FileTree) (at_ : Location) : List String → FileTree × Except FileError Unit
  | [] => (t, .ok ())
  | name :: names =>
    match t.step at_ name with
    | .error e => (t, .error e)
    | .ok next =>
      match t.node? next with
      | none => (t.put next .directory).makeAlong next names
      | some (.file _) => (t, .error (if names.isEmpty then .alreadyExists else .notDirectory))
      | some .directory => t.makeAlong next names

def makeDirectory (t : FileTree) (path : String) : FileTree × Except FileError Unit :=
  if path = "" then (t, .ok ())
  else if path.contains '\x00' then (t, .error .badPath)
  else t.makeAlong (t.start path) (FilePath.parts path)

def withoutEnd (path : String) : String :=
  String.ofList (path.toList.reverse.dropWhile (· == '/')).reverse

/-- Where a file may be made. A separator behind its name asks for a directory. -/
def locateFile (t : FileTree) (path : String) : Except FileError Location :=
  if path.endsWith "/" then
    if withoutEnd path = "" then .error .isDirectory
    else
      match t.locate (withoutEnd path) with
      | .error e => .error e
      | .ok _ => .error .isDirectory
  else t.locate path

/-- Gives a file its content; its directory has to be there. -/
def writeFile (t : FileTree) (path : String) (content : ByteArray) :
    FileTree × Except FileError Unit :=
  match t.locateFile path with
  | .error e => (t, .error e)
  | .ok at_ =>
    match t.node? at_ with
    | some .directory => (t, .error .isDirectory)
    | _ => (t.put at_ (.file content), .ok ())

def contentOrEmpty (t : FileTree) (path : String) : ByteArray :=
  match t.read path with
  | .ok b => b
  | .error _ => .empty

def append (t : FileTree) (path : String) (content : ByteArray) :
    FileTree × Except FileError Unit :=
  t.writeFile path (t.contentOrEmpty path ++ content)

def parentPath (path : String) : String :=
  String.ofList ((path.toList.reverse.dropWhile (· == '/')).dropWhile (· != '/')).reverse

/-- Writes a file, with the directories it lies in. -/
def write (t : FileTree) (path : String) (content : ByteArray) :
    FileTree × Except FileError Unit :=
  match t.makeDirectory (parentPath path) with
  | (t, .error e) => (t, .error e)
  | (t, .ok ()) => t.writeFile path content

/-- Takes away a file, or a directory with all it holds. -/
def remove (t : FileTree) (path : String) : FileTree × Except FileError Unit :=
  match t.locate path with
  | .error e => (t, .error e)
  | .ok at_ =>
    match t.node? at_ with
    | none => (t, .error .notFound)
    | some _ => (t.drop at_, .ok ())

instance : Files (StateM FileTree) where
  kind? path := return (← get).kind? path
  read path := return (← get).read path
  makeDirectory path := do
    let (t, r) := (← get).makeDirectory path
    set t
    return r
  append path content := do
    let (t, r) := (← get).append path content
    set t
    return r

end FileTree

end ModuleGraph
