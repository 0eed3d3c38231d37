import ModuleGraph.Error
import ModuleGraph.Json.Basic
import ModuleGraph.Log.Level
import ModuleGraph.Text.Quoted

/-!
# Log setup

What is logged where. The console has one level, the log file another; without a path there is no
log file.
-/

namespace ModuleGraph.Log

structure Setup where
  console : Level := .warn
  file : Level := .debug
  path : Option String := none
  /-- Console lines may be coloured. -/
  ansi : Bool := true
  deriving Repr, DecidableEq

namespace Level

/-- A number that is no level, as a fault of the setting it was given for. -/
def outOfRange (n : Nat) : InvalidSetting := ⟨"global", "log_level", rangeMessage n⟩

/-- The level that a number of 8 bits stands for. -/
def ofNat (n : Nat) : Except InvalidSetting Level :=
  match ofNat? n with
  | some l => .ok l
  | none => .error (outOfRange n)

def nounOf : Json → String
  | .null => "null"
  | .bool b => s!"boolean \x60{b}\x60"
  | .int n => s!"integer \x60{n}\x60"
  | .float x => s!"floating point \x60{x.pointedText}\x60"
  | .string s => s!"string {Text.quote s}"
  | .array _ => "sequence"
  | .object _ => "map"

/-- The level in a JSON document: an integer of 8 bits that is in range. -/
def ofJson : Json → Except String Level
  | .int n =>
    if 0 ≤ n ∧ n < 256 then (ofNat n.toNat).mapError InvalidSetting.text
    else .error s!"invalid value: {nounOf (.int n)}, expected u8"
  | j => .error s!"invalid type: {nounOf j}, expected u8"

theorem ofNat_eq_ok_iff {n : Nat} {l : Level} : ofNat n = .ok l ↔ l.toNat = n := by
  rw [← ofNat?_eq_some_iff, ofNat]
  split <;> simp [*]

end Level

end ModuleGraph.Log
