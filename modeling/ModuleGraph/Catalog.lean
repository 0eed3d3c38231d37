import ModuleGraph.Files
import ModuleGraph.Text.Utf8
import ModuleGraph.Visibility

/-!
# Catalogs

A catalog answers questions about the definitions in a store. The store is read anew for every
question, and nothing is kept between two of them. A file that is not there is an empty catalog.
-/

namespace ModuleGraph

inductive Store
  | inline (text : String)
  | file (path : String)
  deriving Repr, DecidableEq

namespace Store

/-- The store's name in messages. -/
def source : Store → String
  | inline _ => "<inline>"
  | file path => path

def textOf (path : String) : Except FileError ByteArray → Except CatalogError (Option String)
  | .error .notFound => .ok none
  | .error e => .error (.unreadable path e.text)
  | .ok bytes =>
    match Text.decode? bytes with
    | none => .error (.unreadable path notUtf8)
    | some text => .ok (some text)

variable {m : Type → Type} [Monad m] [Files m]

/-- The text in the store; none if there is no store. -/
def text? : Store → m (Except CatalogError (Option String))
  | inline text => return .ok (some text)
  | file path => return textOf path (← Files.read path)

def definitions (s : Store) (text : Option String) : Except CatalogError Definitions :=
  Definitions.parse s.source (text.getD "")

def snapshot (s : Store) : m (Except CatalogError Definitions) :=
  return (← s.text?).bind s.definitions

end Store

/-! ### Questions -/

namespace Definitions

def require (d : Definitions) (name : String) : Except CatalogError Module :=
  match d.load name with
  | some m => .ok m
  | none => .error (.notFound name)

def resolution (d : Definitions) (name : String) : Except CatalogError Resolution :=
  (d.require name).map (resolve d)

def visibility (d : Definitions) (name : String) : Except CatalogError Plan :=
  (d.require name).map (plan d)

end Definitions

namespace Store

variable {α : Type} {m : Type → Type} [Monad m] [Files m]

/-- The answer to a question about the definitions that a text, or none, stands for. -/
def answer (s : Store) (question : Definitions → Except CatalogError α) (text : Option String) :
    Except CatalogError α :=
  (s.definitions text).bind question

def ask (s : Store) (question : Definitions → Except CatalogError α) : m (Except CatalogError α) :=
  return (← s.text?).bind (s.answer question)

end Store

end ModuleGraph
