/-!
# Blank characters

The characters with the property White_Space, and trimming. `trim` cuts blanks from both ends and
touches nothing between. Formats that go line by line know two blanks only, space and tab.
-/

namespace ModuleGraph.Text

/-- Code points with the property White_Space. -/
def blankRanges : List (Nat × Nat) :=
  [(0x9, 0xD), (0x20, 0x20), (0x85, 0x85), (0xA0, 0xA0), (0x1680, 0x1680), (0x2000, 0x200A),
    (0x2028, 0x2029), (0x202F, 0x202F), (0x205F, 0x205F), (0x3000, 0x3000)]

def isBlank (c : Char) : Bool :=
  blankRanges.any fun r => r.1 ≤ c.toNat && c.toNat ≤ r.2

def trimStartChars (s : List Char) : List Char := s.dropWhile isBlank

def trimEndChars (s : List Char) : List Char := (trimStartChars s.reverse).reverse

def trimChars (s : List Char) : List Char := trimEndChars (trimStartChars s)

def trim (s : String) : String := String.ofList (trimChars s.toList)

@[simp] theorem trimChars_nil : trimChars [] = [] := rfl

@[simp] theorem toList_trim (s : String) : (trim s).toList = trimChars s.toList := by
  simp [trim]

/-- A blank that keeps a line as one. -/
def isInlineBlank (c : Char) : Bool := c == ' ' || c == '\t'

def dropInlineBlanks (s : List Char) : List Char := s.dropWhile isInlineBlank

/-- Letters `A` to `Z` made small; every other character is left as it is. -/
def lowerAscii (s : String) : String := s.map Char.toLower

/-- Equality that does not tell `A` to `Z` from `a` to `z`. -/
def sameAscii (s t : String) : Bool := lowerAscii s == lowerAscii t

theorem sameAscii_eq (s t : String) :
    sameAscii s t = (s.toList.map Char.toLower == t.toList.map Char.toLower) := by
  rw [Bool.eq_iff_iff, sameAscii, beq_iff_eq, beq_iff_eq, ← String.toList_inj]
  simp [lowerAscii]

end ModuleGraph.Text
