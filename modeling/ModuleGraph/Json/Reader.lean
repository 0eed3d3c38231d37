import ModuleGraph.Decimal.Reader
import ModuleGraph.Json.Basic

/-!
# Reading JSON

`Json.parse?` reads one document. A number without point and exponent is an integer if it fits 64
bits, signed or unsigned; `-0` and all other numbers are floating-point numbers.
-/

namespace ModuleGraph.Json

open Decimal (digitsValue readSign)
open Text (hexValue?)

def isJsonBlank (c : Char) : Bool := c == ' ' || c == '\t' || c == '\n' || c == '\r'

def skipBlanks (s : List Char) : List Char := s.dropWhile isJsonBlank

def readHex4? : List Char → Option (Nat × List Char)
  | a :: b :: c :: d :: s => do
    let a ← hexValue? a
    let b ← hexValue? b
    let c ← hexValue? c
    let d ← hexValue? d
    pure (((a * 16 + b) * 16 + c) * 16 + d, s)
  | _ => none

def simpleEscape? (c : Char) : Option Char :=
  if c = '"' ∨ c = '\\' ∨ c = '/' then some c
  else if c = 'n' then some '\n'
  else if c = 'r' then some '\r'
  else if c = 't' then some '\t'
  else if c = 'b' then some '\x08'
  else if c = 'f' then some '\x0c'
  else none

/-- The character after `\u`: one unit of 16 bits, or two that are halves of a character. -/
def readUnicode? (s : List Char) : Option (Char × List Char) :=
  match readHex4? s with
  | none => none
  | some (n, r) =>
    if 0xD800 ≤ n ∧ n < 0xDC00 then
      match r with
      | '\\' :: 'u' :: r =>
        match readHex4? r with
        | some (l, r) =>
          if 0xDC00 ≤ l ∧ l < 0xE000 then
            some (Char.ofNat (0x10000 + (n - 0xD800) * 0x400 + (l - 0xDC00)), r)
          else none
        | none => none
      | _ => none
    else if 0xDC00 ≤ n ∧ n < 0xE000 then none
    else some (Char.ofNat n, r)

/-- The rest of a string up to its closing quote, given a bound on its length. -/
def readChars? : Nat → List Char → Option (List Char × List Char)
  | 0, _ => none
  | _ + 1, '"' :: s => some ([], s)
  | fuel + 1, '\\' :: 'u' :: s =>
    match readUnicode? s with
    | some (c, r) => (readChars? fuel r).map fun v => (c :: v.1, v.2)
    | none => none
  | fuel + 1, '\\' :: c :: s =>
    match simpleEscape? c with
    | some e => (readChars? fuel s).map fun v => (e :: v.1, v.2)
    | none => none
  | fuel + 1, c :: s =>
    if c.toNat < 0x20 ∨ c = '\\' then none
    else (readChars? fuel s).map fun v => (c :: v.1, v.2)
  | _ + 1, [] => none

def readString? (s : List Char) : Option (String × List Char) :=
  match s with
  | '"' :: r => (readChars? (r.length + 1) r).map fun v => (String.ofList v.1, v.2)
  | _ => none

/-- The digits after a point; there is at least one. -/
def readFraction? : List Char → Option (List Char × List Char)
  | '.' :: s =>
    match s.takeWhile Char.isDigit with
    | [] => none
    | ds => some (ds, s.dropWhile Char.isDigit)
  | s => some ([], s)

/-- The power of ten after an `e`. -/
def readExponent? : List Char → Option (Option Int × List Char)
  | c :: s =>
    if c = 'e' ∨ c = 'E' then
      let (negative, s) := readSign s
      match s.takeWhile Char.isDigit with
      | [] => none
      | ds =>
        let n : Int := digitsValue ds
        some (some (if negative then -n else n), s.dropWhile Char.isDigit)
    else some (none, c :: s)
  | [] => some (none, [])

def integerInRange (n : Int) : Bool := Decimal.fitsSigned n || (0 ≤ n && Decimal.fitsUnsigned n.toNat)

def numberOf (negative : Bool) (ds fraction : List Char) (exponent : Option Int) : Json :=
  let n : Int := digitsValue ds
  let signed := if negative then -n else n
  if fraction.isEmpty && exponent.isNone && integerInRange signed && !(negative && n == 0) then
    int signed
  else
    float (.ofDecimal negative (digitsValue (ds ++ fraction))
      (exponent.getD 0 - fraction.length))

def readNumber? (s : List Char) : Option (Json × List Char) := do
  let (negative, t) := match s with
    | '-' :: t => (true, t)
    | _ => (false, s)
  let ds := t.takeWhile Char.isDigit
  if ds.isEmpty || (ds.length > 1 && ds.head? == some '0') then none
  let (fraction, r) ← readFraction? (t.dropWhile Char.isDigit)
  let (exponent, r) ← readExponent? r
  pure (numberOf negative ds fraction exponent, r)

def dropWord? : List Char → List Char → Option (List Char)
  | [], s => some s
  | w :: ws, c :: s => if w = c then dropWord? ws s else none
  | _ :: _, [] => none

def readWord? (s : List Char) : Option (Json × List Char) :=
  match dropWord? "null".toList s with
  | some r => some (null, r)
  | none =>
    match dropWord? "true".toList s with
    | some r => some (bool true, r)
    | none => (dropWord? "false".toList s).map fun r => (bool false, r)

mutual

/-- Reads a value, given a bound on the number of steps. -/
def readValue? : Nat → List Char → Option (Json × List Char)
  | 0, _ => none
  | fuel + 1, s =>
    match skipBlanks s with
    | '[' :: r =>
      match skipBlanks r with
      | ']' :: r => some (array [], r)
      | r => (readItems? fuel r).map fun v => (array v.1, v.2)
    | '\x7b' :: r =>
      match skipBlanks r with
      | '\x7d' :: r => some (object [], r)
      | r => (readFields? fuel r).map fun v => (object v.1, v.2)
    | '"' :: r => (readString? ('"' :: r)).map fun v => (string v.1, v.2)
    | r =>
      match readWord? r with
      | some v => some v
      | none => readNumber? r

def readItems? : Nat → List Char → Option (List Json × List Char)
  | 0, _ => none
  | fuel + 1, s =>
    match readValue? fuel s with
    | none => none
    | some (j, r) =>
      match skipBlanks r with
      | ',' :: r => (readItems? fuel r).map fun v => (j :: v.1, v.2)
      | ']' :: r => some ([j], r)
      | _ => none

def readFields? : Nat → List Char → Option (List (String × Json) × List Char)
  | 0, _ => none
  | fuel + 1, s =>
    match readString? (skipBlanks s) with
    | none => none
    | some (k, r) =>
      match skipBlanks r with
      | ':' :: r =>
        match readValue? fuel r with
        | none => none
        | some (j, r) =>
          match skipBlanks r with
          | ',' :: r => (readFields? fuel r).map fun v => ((k, j) :: v.1, v.2)
          | '\x7d' :: r => some ([(k, j)], r)
          | _ => none
      | _ => none

end

/-- Reads a document; nothing but blanks may follow it. -/
def parse? (text : String) : Option Json :=
  match readValue? (2 * text.length + 2) text.toList with
  | some (j, r) => if skipBlanks r = [] then some j else none
  | none => none

end ModuleGraph.Json
