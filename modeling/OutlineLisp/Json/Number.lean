import OutlineLisp.Json.Basic
import OutlineLisp.Number.Rounding
import OutlineLisp.Number.Text

/-!
# Numbers in JSON

A number is written with the fewest digits that read back, always with a point or an exponent, so
that it is told apart from a count. A count is a literal of digits alone.

Whoever reads a number chooses how its numeral is rounded.

## Main definitions

* `Json.ofFloat`, `Json.toFloat?`: numbers.
* `Json.toCount?`, `Json.toUInt32?`: natural numbers below a bound, and words.
-/

namespace OutlineLisp

namespace Json

/-- Exchanged numbers are positional from `0.00001` up to and excluding `10 ^ 16`, a whole number
ends in `.0`, negative zero keeps its sign, and a tie goes to the even digit. -/
def numberStyle : NumberStyle :=
  { lowest := -5, highest := 15, wholeTail := ['.', '0'], signedZero := true, tie := .even }

/-- A number as a JSON value. What is not finite has no literal and is null. -/
def ofFloat (x : Float) : Json := if x.isFinite then number (numberStyle.write x) else null

/-- The number of a literal, unless it is beyond the finite range. -/
def toFloat? (round : Rounding) : Json → Option Float
  | number literal => ((Numeral.ofText? literal).map round).filter Float.isFinite
  | _ => none

/-- The natural number of a literal of digits, if it is below a bound. -/
def toCount? (bound : Nat) : Json → Option Nat
  | number literal =>
    if Numeral.isDigits literal && decide (Numeral.ofDigits literal < bound) then
      some (Numeral.ofDigits literal)
    else none
  | _ => none

/-- The word of 16 bits that a literal of digits writes. -/
def toUInt16? (j : Json) : Option UInt16 := (j.toCount? UInt16.size).map UInt16.ofNat

/-- The word of 32 bits that a literal of digits writes. -/
def toUInt32? (j : Json) : Option UInt32 := (j.toCount? UInt32.size).map UInt32.ofNat

/-- The word of 64 bits that a literal of digits writes. -/
def toUInt64? (j : Json) : Option UInt64 := (j.toCount? UInt64.size).map UInt64.ofNat

end Json

end OutlineLisp
