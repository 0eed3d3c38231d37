import ModuleGraph.Text.Unprintable

/-!
# Quoted text

A text between double quotes in which quotes, backslashes and everything unprintable are escaped.
Unprintable characters are written as `\u`, then their number in base 16 between braces.
-/

namespace ModuleGraph.Text

/-- A number in base 16, small letters, no leading zero. -/
def hex (n : Nat) : String := String.ofList (Nat.toDigits 16 n)

def quoteChar (c : Char) : String :=
  if c = '"' then "\\\""
  else if c = '\\' then "\\\\"
  else if c = '\t' then "\\t"
  else if c = '\n' then "\\n"
  else if c = '\r' then "\\r"
  else if c = '\x00' then "\\0"
  else if isUnprintable c then "\\u\x7b" ++ hex c.toNat ++ "\x7d"
  else c.toString

def quote (s : String) : String := "\"" ++ String.join (s.toList.map quoteChar) ++ "\""

end ModuleGraph.Text
