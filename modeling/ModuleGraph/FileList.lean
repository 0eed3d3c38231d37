import ModuleGraph.Path
import ModuleGraph.Text.Lines
import ModuleGraph.Text.Utf8

/-!
# File lists

A list of files has one path a line. Lines that hold no usable path are left out.
-/

namespace ModuleGraph.FileList

def ofChars (s : List Char) : List String :=
  (Text.lines s).filterMap fun line => (Path.normalizeChars line).map String.ofList

/-- The paths of a list as bytes, if they are text. -/
def read? (bytes : ByteArray) : Option (List String) :=
  (Text.decode? bytes).map fun text => ofChars text.toList

def ofArguments (files : List String) : List String := files.filterMap Path.normalize

def unreadable : String := "failed to read file list: stream did not contain valid UTF-8"

end ModuleGraph.FileList
