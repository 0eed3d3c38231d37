import ModuleGraph.Log.Level
import ModuleGraph.Text.Hexadecimal

/-!
# Log events

An event is one line of a log: a message with named values, said by one part of the program. The
console shows severity and message; the log file puts the part's name before the message and the
time before all.
-/

namespace ModuleGraph.Log

structure Event where
  severity : Severity
  /-- The part of the program that speaks. -/
  target : String
  message : String
  fields : List (String × String) := []
  deriving Repr, DecidableEq

def hexByte (n : Nat) : String := String.ofList [Text.hexDigit (n / 16 % 16), Text.hexDigit (n % 16)]

/-- Characters that could steer a terminal, written out. -/
def sanitizeChar (c : Char) : String :=
  let n := c.toNat
  if n = 0x7 ∨ n = 0x8 ∨ n = 0xC ∨ n = 0x1B ∨ n = 0x7F then "\\x" ++ hexByte n
  else if 0x80 ≤ n ∧ n ≤ 0x9F then "\\u\x7b" ++ hexByte n ++ "\x7d"
  else c.toString

def sanitize (s : String) : String := String.join (s.toList.map sanitizeChar)

namespace Event

/-- Message and fields, with a blank before each field. -/
def body (e : Event) : String :=
  sanitize e.message ++ String.join (e.fields.map fun f => " " ++ f.1 ++ "=" ++ f.2)

/-- The severity's name, set right in five columns. -/
def severityColumn (e : Event) : String :=
  String.ofList (List.replicate (5 - e.severity.label.length) ' ') ++ e.severity.label

def consoleLine (e : Event) : String := e.severityColumn ++ " " ++ e.body

/-- A line of the log file after its time. -/
def fileLine (e : Event) : String := e.severityColumn ++ " " ++ e.target ++ ": " ++ e.body

end Event

end ModuleGraph.Log
