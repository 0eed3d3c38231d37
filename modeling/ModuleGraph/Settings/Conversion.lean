import ModuleGraph.Decimal.Reader
import ModuleGraph.Decimal.Shortest
import ModuleGraph.Log.Setup
import ModuleGraph.Settings.Fault
import ModuleGraph.Settings.Value
import ModuleGraph.Text.Casing
import ModuleGraph.Text.Quoted

/-!
# Converting setting values

Levels, truth values and texts from values of any type that stands for one. Numbers stand for truth
values and words for numbers; a floating-point number is rounded where an integer is asked for.
-/

namespace ModuleGraph.Settings

namespace Scalar

def display : Scalar → String
  | bool b => toString b
  | int n => toString n
  | float x => x.text
  | text s => s

/-- What the value is, in messages about its type. -/
def noun : Scalar → String
  | bool b => s!"boolean \x60{b}\x60"
  | int n => s!"integer \x60{n}\x60"
  | float x => s!"floating point \x60{x.pointedText}\x60"
  | text s => s!"string {Text.quote s}"

def truth? (word : String) : Option Bool :=
  let w := Text.lowercase word
  if w ∈ ["true", "on", "yes"] then some true
  else if w ∈ ["false", "off", "no"] then some false
  else none

end Scalar

namespace Value

def noun : Value → String
  | absent => "unit value"
  | scalar _ s => s.noun
  | list .. => "sequence"
  | table .. => "map"

/-- The natural number of 64 bits that a value stands for. -/
def natural (v : Value) : Except Misfit Nat :=
  match v with
  | scalar o (.int n) =>
    if 0 ≤ n then .ok n.toNat
    else .error (.wrongType s!"64-bit integer \x60{n}\x60" "an unsigned 64 bit or less integer" o)
  | scalar _ (.bool b) => .ok b.toNat
  | scalar _ (.float x) => .ok (x.clampToNat 0xFFFFFFFFFFFFFFFF)
  | scalar o (.text s) =>
    match Scalar.truth? s with
    | some b => .ok b.toNat
    | none =>
      match Decimal.natural? s with
      | some n => .ok n
      | none => .error (.wrongType s!"string {Text.quote s}" "an integer" o)
  | v => .error (.wrongType v.noun "an integer" v.origin)

/-- The log level that a value stands for: a number of 8 bits that is in range. -/
def level (v : Value) : Except Misfit Log.Level :=
  match v.natural with
  | .error e => .error e
  | .ok n =>
    if n < 256 then (Log.Level.ofNat n).mapError (.refused ·.text)
    else .error (.wrongType s!"64-bit unsigned integer \x60{n}\x60" "an unsigned 8 bit integer" none)

def truth (v : Value) : Except Misfit Bool :=
  match v with
  | scalar _ (.bool b) => .ok b
  | scalar _ (.int n) => .ok (n != 0)
  | scalar _ (.float x) => .ok (!x.isZero)
  | scalar o (.text s) =>
    match Scalar.truth? s with
    | some b => .ok b
    | none =>
      if s = "1" then .ok true
      else if s = "0" then .ok false
      else .error (.wrongType s!"string {Text.quote (Text.lowercase s)}" "a boolean" o)
  | v => .error (.wrongType v.noun "a boolean" v.origin)

def text (v : Value) : Except Misfit String :=
  match v with
  | scalar _ s => .ok s.display
  | v => .error (.wrongType v.noun "a string" v.origin)

/-- A text, or none if there is no value. -/
def optionalText (v : Value) : Except Misfit (Option String) :=
  match v with
  | absent => .ok none
  | v => v.text.map some

end Value

end ModuleGraph.Settings
