/-!
# Quoted texts in data exchange

A JSON text is quoted between double quotes. Only what must be is escaped: the double quote, the
backslash and the control characters below the space, five of which have a letter each.

## Main definitions

* `Json.quote`: the quoted form of a text.
-/

namespace OutlineLisp

namespace Json

/-- A hexadecimal digit in lower case. -/
def hexDigit (n : Nat) : Char := Nat.digitChar n

/-- A character as it stands in a quoted text. -/
def quoteChar (c : Char) : List Char :=
  if c = '\x22' || c = '\\' then ['\\', c]
  else if c = '\x08' then ['\\', 'b']
  else if c = '\x0c' then ['\\', 'f']
  else if c = '\n' then ['\\', 'n']
  else if c = '\r' then ['\\', 'r']
  else if c = '\t' then ['\\', 't']
  else if c.toNat < 0x20 then
    ['\\', 'u', '0', '0', hexDigit (c.toNat / 16), hexDigit (c.toNat % 16)]
  else [c]

/-- The quoted form of a text. -/
def quote (cs : List Char) : List Char := '\x22' :: cs.flatMap quoteChar ++ ['\x22']

end Json

end OutlineLisp
