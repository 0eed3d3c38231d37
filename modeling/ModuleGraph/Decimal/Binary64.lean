/-!
# Binary floating-point numbers

The numbers with a mantissa below `2 ^ 53` and an exponent from -1074 to 971, with two infinities
and a value for "no number". A ratio becomes the nearest such number; of two equally near, the one
with the even mantissa.
-/

namespace ModuleGraph.Decimal

def twoPow (n : Nat) : Nat := Nat.pow 2 n

def tenPow (n : Nat) : Nat := Nat.pow 10 n

inductive Binary64
  | nan
  | infinite (negative : Bool)
  /-- `mantissa * 2 ^ exponent`. -/
  | finite (negative : Bool) (mantissa : Nat) (exponent : Int)
  deriving Repr, DecidableEq

/-- The quotient rounded to the nearest integer, a half to the even one. -/
def roundHalfEven (num den : Nat) : Nat :=
  let q := num / den
  let r := num % den
  if 2 * r < den then q
  else if 2 * r = den then q + q % 2
  else q + 1

/-- Numerator and denominator of `num / den / 2 ^ e`. -/
def scale (num den : Nat) (e : Int) : Nat × Nat :=
  if 0 ≤ e then (num, den * twoPow e.toNat) else (num * twoPow (-e).toNat, den)

namespace Binary64

def zero (negative : Bool) : Binary64 := finite negative 0 (-1074)

/-- The exponent at which the ratio has a mantissa of 53 bits, or the least exponent there is. -/
def exponentFor (num den : Nat) : Int :=
  let e : Int := (num.log2 : Int) - den.log2 - 52
  let s := scale num den e
  max (-1074) (if s.1 / s.2 < twoPow 52 then e - 1 else e)

/-- The number nearest to a ratio. -/
def ofRatio (negative : Bool) (num den : Nat) : Binary64 :=
  if num = 0 then zero negative
  else
    let e := exponentFor num den
    let s := scale num den e
    let m := roundHalfEven s.1 s.2
    let m' := if m = twoPow 53 then twoPow 52 else m
    let e' := if m = twoPow 53 then e + 1 else e
    if 971 < e' then infinite negative else finite negative m' e'

def digitCount (n : Nat) : Nat := (Nat.toDigits 10 n).length

/-- The number nearest to `digits * 10 ^ exponent`. Far beyond the range of finite numbers, or far
below the least positive one, the power of ten is not formed. -/
def ofDecimal (negative : Bool) (digits : Nat) (exponent : Int) : Binary64 :=
  let top := (digitCount digits : Int) + exponent
  if digits = 0 ∨ top < -400 then zero negative
  else if 400 < top then infinite negative
  else if 0 ≤ exponent then ofRatio negative (digits * tenPow exponent.toNat) 1
  else ofRatio negative digits (tenPow (-exponent).toNat)

def magnitude (mantissa : Nat) (exponent : Int) : Nat × Nat :=
  if 0 ≤ exponent then (mantissa * twoPow exponent.toNat, 1) else (mantissa, twoPow (-exponent).toNat)

def isZero : Binary64 → Bool
  | finite _ m _ => m == 0
  | _ => false

/-- The size rounded to the nearest integer, a half upwards. -/
def roundedMagnitude (mantissa : Nat) (exponent : Int) : Nat :=
  let r := magnitude mantissa exponent
  (2 * r.1 + r.2) / (2 * r.2)

/-- The nearest integer from 0 to `top`, a half away from zero. What is no number counts as 0. -/
def clampToNat (top : Nat) : Binary64 → Nat
  | nan => 0
  | infinite negative => if negative then 0 else top
  | finite negative m e => if negative then 0 else min top (roundedMagnitude m e)

end Binary64

end ModuleGraph.Decimal
