import OutlineLisp.Text.Visible

/-!
# Quoted texts

A text is quoted between double quotes. Inside, the double quote and the backslash follow a
backslash, four control characters have a letter each, and any other character that would not be
visible is written by its code point in hexadecimal between braces.

## Main definitions

* `Text.quote`: the quoted form of a text.
-/

namespace OutlineLisp

namespace Text

/-- The hexadecimal digits of a number, in lower case and without leading zeros. -/
def hexDigits (n : Nat) : List Char := Nat.toDigits 16 n

/-- A character as it stands in a quoted text. -/
def quoteChar (c : Char) : List Char :=
  if c = '\x22' || c = '\\' then ['\\', c]
  else if c = '\n' then ['\\', 'n']
  else if c = '\r' then ['\\', 'r']
  else if c = '\t' then ['\\', 't']
  else if c.toNat = 0 then ['\\', '0']
  else if isVisible c then [c]
  else '\\' :: 'u' :: '\x7b' :: hexDigits c.toNat ++ ['\x7d']

/-- The quoted form of a text. -/
def quote (cs : List Char) : List Char := '\x22' :: cs.flatMap quoteChar ++ ['\x22']

end Text

end OutlineLisp
