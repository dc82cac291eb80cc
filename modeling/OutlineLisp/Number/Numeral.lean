/-!
# Numerals

A numeral is a decimal as it is written: an optional sign, digits with an optional point among them,
and an optional exponent.

The grammar is generous at the point, where `5.` and `.5` are numerals and `.` is not, and strict
everywhere else: no blanks, no separators between digits, no other digits than the ASCII ones.

## Main definitions

* `Numeral`: the parts of a numeral.
* `Numeral.ofText?`: the numeral that a text is.
-/

namespace OutlineLisp

/-- A sign, the digits before and after the point, and an exponent. -/
structure Numeral where
  negative : Bool
  whole : List Char
  places : List Char
  exponent : Int
  deriving DecidableEq, Repr

namespace Numeral

/-- Whether a text is a run of at least one digit. -/
def isDigits (cs : List Char) : Bool := !cs.isEmpty && cs.all Char.isDigit

/-- The whole number that a run of digits writes. -/
def ofDigits (cs : List Char) : Nat := Nat.ofDigitChars 10 cs 0

/-- The exponent written in digits after an optional sign. -/
def signedExponent? : List Char → Option Int
  | '-' :: cs => if isDigits cs then some (-(ofDigits cs : Int)) else none
  | '+' :: cs => if isDigits cs then some (ofDigits cs) else none
  | cs => if isDigits cs then some (ofDigits cs) else none

/-- The exponent that the end of a numeral writes: none at all is zero. -/
def exponent? : List Char → Option Int
  | [] => some 0
  | c :: cs => if c = 'e' ∨ c = 'E' then signedExponent? cs else none

/-- The digits after a point, and what follows them. Without a point there are none. -/
def fraction : List Char → List Char × List Char
  | '.' :: cs => (cs.takeWhile Char.isDigit, cs.dropWhile Char.isDigit)
  | cs => ([], cs)

/-- The numeral that a text without a sign is. A digit is needed before or after the point. -/
def ofUnsigned? (negative : Bool) (cs : List Char) : Option Numeral :=
  let whole := cs.takeWhile Char.isDigit
  let (places, rest) := fraction (cs.dropWhile Char.isDigit)
  if whole.isEmpty && places.isEmpty then none
  else (exponent? rest).map fun exponent => { negative, whole, places, exponent }

/-- A sign and what follows it; a text without a sign is positive. -/
def splitSign : List Char → Bool × List Char
  | '-' :: cs => (true, cs)
  | '+' :: cs => (false, cs)
  | cs => (false, cs)

/-- The numeral that a text is, with an optional sign. -/
def ofText? (cs : List Char) : Option Numeral := ofUnsigned? (splitSign cs).1 (splitSign cs).2

end Numeral

end OutlineLisp
