import ModuleGraph.Decimal.Binary64

/-!
# Reading decimal texts

Integers and floating-point numbers from a text that holds nothing else. A sign may stand in front;
blanks and digit separators may not.
-/

namespace ModuleGraph.Decimal

def digitsValue (ds : List Char) : Nat := ds.foldl (fun n c => n * 10 + (c.toNat - 48)) 0

def readSign : List Char → Bool × List Char
  | '-' :: s => (true, s)
  | '+' :: s => (false, s)
  | s => (false, s)

def digits? (s : List Char) : Option Nat :=
  if s.isEmpty || !s.all Char.isDigit then none else some (digitsValue s)

/-- An integer of 64 bits, signed. -/
def fitsSigned (n : Int) : Bool := -0x8000000000000000 ≤ n && n < 0x8000000000000000

/-- An integer of 64 bits, unsigned. -/
def fitsUnsigned (n : Nat) : Bool := n < 0x10000000000000000

/-- The integer that a text with an optional sign stands for, if it fits 64 bits. -/
def integer? (s : String) : Option Int := do
  let (negative, ds) := readSign s.toList
  let n : Int ← digits? ds
  let signed := if negative then -n else n
  if fitsSigned signed then some signed else none

/-- The unsigned integer that a text stands for, if it fits 64 bits. Of the signs only `+` may stand
in front. -/
def natural? (s : String) : Option Nat := do
  let n ← digits? (match s.toList with
    | '+' :: ds => ds
    | ds => ds)
  if fitsUnsigned n then some n else none

/-- The power of ten behind the digits of a number: `e`, a sign if there is one, digits. -/
def readPower? : List Char → Option Int
  | [] => some 0
  | c :: s =>
    if c = 'e' ∨ c = 'E' then
      let (negative, ds) := readSign s
      (digits? ds).map fun n => if negative then -n else n
    else none

/-- The number with these digits before the point and this text from there on. -/
def readRest? (negative : Bool) (whole rest : List Char) : Option Binary64 :=
  let fraction := match rest with
    | '.' :: s => s.takeWhile Char.isDigit
    | _ => []
  let behind := match rest with
    | '.' :: s => s.dropWhile Char.isDigit
    | s => s
  if whole.isEmpty && fraction.isEmpty then none
  else (readPower? behind).map fun p =>
    .ofDecimal negative (digitsValue (whole ++ fraction)) (p - fraction.length)

/-- The floating-point number nearest to what a text says. There are digits before the point or
behind it; `inf`, `infinity` and `nan`, in large or small letters, are numbers too. -/
def number? (s : String) : Option Binary64 :=
  let (negative, t) := readSign s.toList
  let word := String.ofList (t.map Char.toLower)
  if word = "inf" ∨ word = "infinity" then some (.infinite negative)
  else if word = "nan" then some .nan
  else readRest? negative (t.takeWhile Char.isDigit) (t.dropWhile Char.isDigit)

end ModuleGraph.Decimal
