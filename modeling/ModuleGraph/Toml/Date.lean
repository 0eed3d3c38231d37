import ModuleGraph.Decimal.Reader

/-!
# Dates and times of TOML

A date, a time, or both, and with both perhaps an offset. The normal form has `T` between date and
time, a fraction of a second without zeros at its end, and `Z` for the zero offset written as a
letter.
-/

namespace ModuleGraph.Toml.Date

/-- A number of exactly `n` digits, not above `top`, and the text behind it. -/
def field? (n top : Nat) (s : List Char) : Option (Nat × List Char) :=
  match Decimal.digits? (s.take n) with
  | some v => if (s.take n).length = n ∧ v ≤ top then some (v, s.drop n) else none
  | none => none

def pad (n width : Nat) : List Char :=
  let ds := Nat.toDigits 10 n
  List.replicate (width - ds.length) '0' ++ ds

def isLeap (year : Nat) : Bool := year % 4 == 0 && (year % 100 != 0 || year % 400 == 0)

def daysIn (year month : Nat) : Nat :=
  if month = 2 then if isLeap year then 29 else 28
  else if month ∈ [4, 6, 9, 11] then 30
  else 31

/-- `YYYY-MM-DD`. -/
def readDate? (s : List Char) : Option (List Char × List Char) := do
  let (year, s) ← field? 4 9999 s
  let '-' :: s := s | none
  let (month, s) ← field? 2 12 s
  let '-' :: s := s | none
  let (day, s) ← field? 2 31 s
  if month = 0 ∨ day = 0 ∨ daysIn year month < day then none
  else some (pad year 4 ++ '-' :: pad month 2 ++ '-' :: pad day 2, s)

/-- The digits that a fraction of a second keeps: nine at most, no zeros at the end but for a first
one. -/
def fractionDigits (ds : List Char) : List Char :=
  match ((ds.take 9).reverse.dropWhile (· == '0')).reverse with
  | [] => ['0']
  | kept => kept

def readFraction? : List Char → Option (List Char × List Char)
  | '.' :: s =>
    match s.takeWhile Char.isDigit with
    | [] => none
    | ds => some ('.' :: fractionDigits ds, s.dropWhile Char.isDigit)
  | s => some ([], s)

/-- Seconds, if they stand there; the last minute of a day may have a sixty-first. -/
def readSeconds? : List Char → Option (List Char × List Char)
  | ':' :: s => do
    let (second, s) ← field? 2 60 s
    let (fraction, s) ← readFraction? s
    some (':' :: pad second 2 ++ fraction, s)
  | s => some ([], s)

/-- `HH:MM`, then seconds and a fraction if they are given. -/
def readTime? (s : List Char) : Option (List Char × List Char) := do
  let (hour, s) ← field? 2 23 s
  let ':' :: s := s | none
  let (minute, s) ← field? 2 59 s
  let (seconds, s) ← readSeconds? s
  some (pad hour 2 ++ ':' :: pad minute 2 ++ seconds, s)

def offset? : List Char → Option (List Char)
  | [] => some []
  | [c] => if c = 'Z' ∨ c = 'z' then some ['Z'] else none
  | c :: s => do
    let negative ← if c = '-' then some true else if c = '+' then some false else none
    let (hours, s) ← field? 2 23 s
    let ':' :: s := s | none
    let (minutes, []) ← field? 2 59 s | none
    some ((if negative && (hours, minutes) != (0, 0) then '-' else '+') ::
      pad hours 2 ++ ':' :: pad minutes 2)

/-- What may stand between date and time. -/
def isDelimiter (c : Char) : Bool := c == 'T' || c == 't' || c == ' '

/-- The normal form of a date, a time or both. -/
def normal? (s : List Char) : Option (List Char) :=
  match readDate? s with
  | some (date, []) => some date
  | some (date, c :: s) =>
    if isDelimiter c then do
      let (time, s) ← readTime? s
      let offset ← offset? s
      some (date ++ 'T' :: time ++ offset)
    else none
  | none =>
    match readTime? s with
    | some (time, []) => some time
    | _ => none

end ModuleGraph.Toml.Date
