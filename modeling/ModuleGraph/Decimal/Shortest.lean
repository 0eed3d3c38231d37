import ModuleGraph.Decimal.Binary64

/-!
# Shortest decimal text

A number is written with the fewest digits that still read back as that number; of several such
texts the nearest is taken. The text is positional, whatever the size of the number.
-/

namespace ModuleGraph.Decimal

/-- `a * 10 ^ p ≤ b * 2 ^ q`. -/
def decimalLe (a : Nat) (p : Int) (b : Nat) (q : Int) : Bool :=
  a * tenPow p.toNat * twoPow (-q).toNat ≤ b * twoPow q.toNat * tenPow (-p).toNat

/-- `b * 2 ^ q ≤ a * 10 ^ p`. -/
def binaryLe (b : Nat) (q : Int) (a : Nat) (p : Int) : Bool :=
  b * twoPow q.toNat * tenPow (-p).toNat ≤ a * tenPow p.toNat * twoPow (-q).toNat

/-- `a * 10 ^ p` reads back as the number with this mantissa and exponent: it lies between the
midpoints to its neighbours, on a midpoint only when the mantissa is even. -/
def readsBack (mantissa : Nat) (exponent : Int) (a : Nat) (p : Int) : Bool :=
  let even := mantissa % 2 == 0
  let low := if mantissa = twoPow 52 ∧ -1074 < exponent then 4 * mantissa - 1 else 4 * mantissa - 2
  let high := 4 * mantissa + 2
  let q := exponent - 2
  if even then binaryLe low q a p && decimalLe a p high q
  else !decimalLe a p low q && !binaryLe high q a p

/-- The power of ten of the leading digit of a positive ratio. -/
def leadingPower (num den : Nat) : Int :=
  if den ≤ num then (Binary64.digitCount (num / den) : Int) - 1
  else -(Binary64.digitCount ((den + num - 1) / num - 1) : Int)

/-- Digits `a` and power `p` with `a * 10 ^ p` the shortest text, looked for from `n` digits on. -/
def shortestFrom (mantissa : Nat) (exponent : Int) (top : Int) : Nat → Nat → Nat × Int
  | 0, _ => (0, 0)
  | more + 1, n =>
    let r := Binary64.magnitude mantissa exponent
    let p := top - n + 1
    let num := r.1 * tenPow (-p).toNat
    let den := r.2 * tenPow p.toNat
    let a := num / den
    let below := readsBack mantissa exponent a p
    let above := readsBack mantissa exponent (a + 1) p
    if below && (!above || 2 * (num % den) < den) then (a, p)
    else if above then (a + 1, p)
    else shortestFrom mantissa exponent top more (n + 1)

/-- Digits and power of ten of the shortest text of a positive number. -/
def shortest (mantissa : Nat) (exponent : Int) : Nat × Int :=
  let r := Binary64.magnitude mantissa exponent
  shortestFrom mantissa exponent (leadingPower r.1 r.2) 17 1

/-- `a * 10 ^ p` without an exponent. -/
def positional (a : Nat) (p : Int) : List Char :=
  let ds := Nat.toDigits 10 a
  if 0 ≤ p then ds ++ List.replicate p.toNat '0'
  else
    let places := (-p).toNat
    let ds := List.replicate (places + 1 - ds.length) '0' ++ ds
    ds.take (ds.length - places) ++ '.' :: ds.drop (ds.length - places)

/-- Without the zeros at the end of a run of digits, which go into the power of ten. -/
def dropEndZeros (a : Nat) (p : Int) : Nat → Nat × Int
  | 0 => (a, p)
  | n + 1 => if a ≠ 0 ∧ a % 10 = 0 then dropEndZeros (a / 10) (p + 1) n else (a, p)

namespace Binary64

def text : Binary64 → String
  | nan => "NaN"
  | infinite negative => if negative then "-inf" else "inf"
  | finite negative m e =>
    let digits :=
      if m = 0 then ['0']
      else
        let s := shortest m e
        let t := dropEndZeros s.1 s.2 17
        positional t.1 t.2
    String.ofList (if negative then '-' :: digits else digits)

/-- The text of a number, with `.0` where a finite number would look like an integer. -/
def pointedText (x : Binary64) : String :=
  match x with
  | finite .. => if x.text.contains '.' then x.text else x.text ++ ".0"
  | _ => x.text

end Binary64

end ModuleGraph.Decimal
