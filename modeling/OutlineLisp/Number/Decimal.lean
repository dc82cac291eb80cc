import OutlineLisp.Number.Binary64
import OutlineLisp.Number.Numeral

/-!
# Decimals

A decimal is a sign, a whole number of digits and a power of ten. `Decimal.toFloat` rounds it to the
nearest binary64 number, and `Number.ofText?` reads the texts that denote a number at all: numerals,
and the names of infinity and of not-a-number.

## Main definitions

* `Decimal.nearestCode`: the code of the magnitude nearest to a decimal.
* `Numeral.toDecimal`: the decimal that a numeral writes.
* `Number.ofText?`: the number that a text denotes.
-/

namespace OutlineLisp

/-- The decimal `± digits * 10 ^ exponent`. -/
structure Decimal where
  negative : Bool
  digits : Nat
  exponent : Int
  deriving DecidableEq, Repr

namespace Decimal

/-- The code of the magnitude nearest to `digits * 10 ^ exponent`, with no bound on the exponent. -/
def scaledCode (digits : Nat) (exponent : Int) : Nat :=
  if 0 ≤ exponent then Binary64.nearest (digits * Nat.pow 10 exponent.toNat) 1
  else Binary64.nearest digits (Nat.pow 10 (-exponent).toNat)

/-- The code of the magnitude nearest to a decimal. Beyond `10 ^ 400` every magnitude is infinite,
and below `10 ^ (-1100)` it is zero; there the power of ten is not computed. -/
def nearestCode (d : Decimal) : Nat :=
  if d.digits = 0 then 0
  else if 400 < d.exponent then Binary64.infinity
  else if d.exponent < -(1100 + (d.digits.log2 : Int)) then 0
  else scaledCode d.digits d.exponent

/-- The number nearest to a decimal, a tie going to the even neighbour. -/
def toFloat (d : Decimal) : Float := Binary64.ofCode d.negative d.nearestCode

end Decimal

/-- The decimal that a numeral writes. The digits on both sides of the point count as one run. -/
def Numeral.toDecimal (n : Numeral) : Decimal :=
  { negative := n.negative, digits := ofDigits (n.whole ++ n.places),
    exponent := n.exponent - n.places.length }

namespace Number

/-- Positive or negative infinity. -/
def infinite (negative : Bool) : Float := Binary64.ofCode negative Binary64.infinity

/-- Not a number. -/
def nan : Float := Binary64.ofCode false (Binary64.infinity + 1)

/-- The number that a text denotes. Infinity is written `inf` or `infinity` and not-a-number `nan`,
in letters of either case; everything else is a numeral, and denotes the nearest number. -/
def ofText? (cs : List Char) : Option Float :=
  let (negative, name) := Numeral.splitSign cs
  let name := String.ofList (name.map Char.toLower)
  if name = "inf" || name = "infinity" then some (infinite negative)
  else if name = "nan" then some nan
  else (Numeral.ofText? cs).map fun n => n.toDecimal.toFloat

end Number

end OutlineLisp
