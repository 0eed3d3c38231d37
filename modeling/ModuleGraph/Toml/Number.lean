import ModuleGraph.Decimal.Reader

/-!
# Numbers of TOML

Integers and floating-point numbers as written in a document. Single underscores may stand between
digits; but for a lone zero no decimal number begins with zero.
-/

namespace ModuleGraph.Toml

open Decimal (readSign digitsValue Binary64)

/-- The digits of a run in which single underscores may stand between two digits. -/
def digitRun? (isDigit : Char → Bool) : List Char → Option (List Char)
  | [] => none
  | [c] => if isDigit c then some [c] else none
  | c :: '_' :: s => if isDigit c then (digitRun? isDigit s).map (c :: ·) else none
  | c :: s => if isDigit c then (digitRun? isDigit s).map (c :: ·) else none

def wholeDigits? (s : List Char) : Option (List Char) :=
  match digitRun? Char.isDigit s with
  | some ('0' :: _ :: _) => none
  | ds => ds

/-- The value of a digit, letters included. -/
def digitValue (c : Char) : Nat :=
  if c.isDigit then c.toNat - 48 else c.toLower.toNat - 87

def isDigitIn (base : Nat) (c : Char) : Bool := c.isAlphanum && digitValue c < base

def based? (base : Nat) (s : List Char) : Option Int :=
  (digitRun? (isDigitIn base) s).map fun ds => (ds.foldl (fun n c => n * base + digitValue c) 0 : Nat)

def integerOf? (s : List Char) : Option Int :=
  match s with
  | '0' :: 'x' :: ds => based? 16 ds
  | '0' :: 'o' :: ds => based? 8 ds
  | '0' :: 'b' :: ds => based? 2 ds
  | _ =>
    let (negative, t) := readSign s
    (wholeDigits? t).map fun ds => if negative then -(digitsValue ds : Int) else digitsValue ds

/-- An integer that fits 64 bits. -/
def integer? (s : List Char) : Option Int := (integerOf? s).filter Decimal.fitsSigned

def power? : List Char → Option Int
  | [] => some 0
  | c :: s =>
    if c = 'e' ∨ c = 'E' then
      let (negative, t) := readSign s
      (digitRun? Char.isDigit t).map fun ds =>
        if negative then -(digitsValue ds : Int) else digitsValue ds
    else none

def isPowerMark (c : Char) : Bool := c == 'e' || c == 'E'

def isInfinite : Binary64 → Bool
  | .infinite _ => true
  | _ => false

/-- A number with a point, a power of ten, or both. It has to be finite. -/
def decimal? (negative : Bool) (s : List Char) : Option Binary64 := do
  if !s.any (fun c => c == '.' || isPowerMark c) then none
  let front := s.takeWhile (!isPowerMark ·)
  let power ← power? (s.dropWhile (!isPowerMark ·))
  let whole ← wholeDigits? (front.takeWhile (· != '.'))
  let fraction ← match front.dropWhile (· != '.') with
    | [] => some []
    | _ :: t => digitRun? Char.isDigit t
  let x := Binary64.ofDecimal negative (digitsValue (whole ++ fraction)) (power - fraction.length)
  if isInfinite x then none else some x

def float? (s : List Char) : Option Binary64 :=
  match readSign s with
  | (negative, ['i', 'n', 'f']) => some (.infinite negative)
  | (_, ['n', 'a', 'n']) => some .nan
  | (negative, t) => decimal? negative t

end ModuleGraph.Toml
