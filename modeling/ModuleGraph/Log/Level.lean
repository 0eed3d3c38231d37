/-!
# Log levels

Levels 0 to 6 set how much is logged. Level `n` admits the events whose rank is at most `n`; level 0
admits none, level 6 everything, events of other parts included.
-/

namespace ModuleGraph.Log

inductive Severity
  | error
  | warn
  | info
  | debug
  | trace
  deriving Repr, DecidableEq

namespace Severity

def rank : Severity → Nat
  | error => 1
  | warn => 2
  | info => 3
  | debug => 4
  | trace => 5

def label : Severity → String
  | error => "ERROR"
  | warn => "WARN"
  | info => "INFO"
  | debug => "DEBUG"
  | trace => "TRACE"

end Severity

structure Level where
  toNat : Nat
  le_six : toNat ≤ 6 := by omega
  deriving Repr, DecidableEq

namespace Level

def warn : Level := ⟨2, by omega⟩

def debug : Level := ⟨4, by omega⟩

def ofNat? (n : Nat) : Option Level := if h : n ≤ 6 then some ⟨n, h⟩ else none

def admits (l : Level) (s : Severity) : Bool := s.rank ≤ l.toNat

/-- The directive that selects events at this level: below 6, other parts log warnings only. -/
def directive (l : Level) : String :=
  match l.toNat with
  | 0 => "off"
  | 1 => "error"
  | 2 => "warn"
  | 3 => "warn,modgit=info"
  | 4 => "warn,modgit=debug"
  | 5 => "warn,modgit=trace"
  | _ => "trace"

def rangeMessage (n : Nat) : String := s!"log level must be 0-6, got {n}"

theorem ofNat?_eq_some_iff {n : Nat} {l : Level} : ofNat? n = some l ↔ l.toNat = n := by
  unfold ofNat?
  split
  · obtain ⟨k, hk⟩ := l
    simp [eq_comm]
  · rename_i h
    have := l.le_six
    simp only [reduceCtorEq, false_iff]
    omega

end Level

end ModuleGraph.Log
