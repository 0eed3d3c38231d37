/-!
# UTF-8

Bytes as text. `decode?` refuses bytes that are not UTF-8; `decodeLossy` puts U+FFFD in the place of
each longest run of bytes that begins a character and does not complete it, or that begins none.
-/

namespace ModuleGraph.Text

def decode? (bytes : ByteArray) : Option String := String.fromUTF8? bytes

theorem decode?_toUTF8 (text : String) : decode? text.toUTF8 = some text := by
  unfold decode? String.fromUTF8?
  exact dif_pos text.isValidUTF8

/-- For a first byte of several: how many bytes follow, and the range of the next one. -/
def followers? (b : UInt8) : Option (Nat × UInt8 × UInt8) :=
  if 0xC2 ≤ b ∧ b ≤ 0xDF then some (1, 0x80, 0xBF)
  else if b = 0xE0 then some (2, 0xA0, 0xBF)
  else if b = 0xED then some (2, 0x80, 0x9F)
  else if 0xE1 ≤ b ∧ b ≤ 0xEF then some (2, 0x80, 0xBF)
  else if b = 0xF0 then some (3, 0x90, 0xBF)
  else if 0xF1 ≤ b ∧ b ≤ 0xF3 then some (3, 0x80, 0xBF)
  else if b = 0xF4 then some (3, 0x80, 0x8F)
  else none

/-- The following bytes of a character, as far as they stand there: `n` of them are due. -/
def takeFollowers : Nat → UInt8 → UInt8 → List UInt8 → List UInt8
  | n + 1, lo, hi, b :: bs => if lo ≤ b ∧ b ≤ hi then b :: takeFollowers n 0x80 0xBF bs else []
  | _, _, _, _ => []

/-- The bits that a byte adds to those before it. -/
def addFollower (n : Nat) (b : UInt8) : Nat := n * 64 + b.toNat % 64

/-- The character of a first byte and all its followers. -/
def assemble (first : UInt8) (rest : List UInt8) : Char :=
  Char.ofNat (rest.foldl addFollower (first.toNat % (64 >>> rest.length)))

def decodeLossyBytes : List UInt8 → List Char
  | [] => []
  | b :: bs =>
    if b < 0x80 then Char.ofNat b.toNat :: decodeLossyBytes bs
    else
      match followers? b with
      | none => '\uFFFD' :: decodeLossyBytes bs
      | some (n, lo, hi) =>
        let rest := takeFollowers n lo hi bs
        (if rest.length = n then assemble b rest else '\uFFFD') ::
          decodeLossyBytes (bs.drop rest.length)
termination_by bytes => bytes.length
decreasing_by
  · simp
  · simp
  · simp only [List.length_drop, List.length_cons]
    omega

def decodeLossy (bytes : ByteArray) : String := String.ofList (decodeLossyBytes bytes.toList)

/-- A byte-order mark in front says nothing. -/
def dropByteOrderMark : List Char → List Char
  | '\uFEFF' :: s => s
  | s => s

end ModuleGraph.Text
