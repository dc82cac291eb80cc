import OutlineLisp.Number.Shortest
import OutlineLisp.Text.Blank

/-!
# Number texts

A finite number is written with the fewest digits that read back, either positionally or in
exponent form, by the size of its leading digit's exponent. Where the border lies, and what is
appended to a whole number, differs between the text shown to users and the text of data exchange;
these decisions are the fields of a `NumberStyle`.

A text is *canonical* when it is the shown text of the number that it denotes, up to blanks around
it. So `5` and `-2.5` are canonical, and `5.0`, `+5`, `1e3`, `.5`, `-0` and `NaN` are not.

## Main definitions

* `NumberStyle.write`: the text of a finite number in a style.
* `Number.display`: the text of a number as users see it.
* `Number.canonical?`: the number whose shown text a text is.
-/

namespace OutlineLisp

/-- The decisions of a number format. -/
structure NumberStyle where
  /-- The least exponent of the leading digit that is written positionally. -/
  lowest : Int
  /-- The greatest exponent of the leading digit that is written positionally. -/
  highest : Int
  /-- What follows the digits of a whole number in positional form. -/
  wholeTail : List Char
  /-- Whether the sign of a negative zero is written. -/
  signedZero : Bool
  /-- Which of two equally near shortest decimals is taken. -/
  tie : Shortest.Tie

namespace NumberStyle

/-- The decimal digits of a natural number. -/
def digitsOf (n : Nat) : List Char := Nat.toDigits 10 n

/-- An exponent with its sign. -/
def signed (e : Int) : List Char :=
  (if e < 0 then '-' else '+') :: digitsOf e.natAbs

/-- Digits with a point after the digit of exponent zero, the leading digit having exponent `e`. -/
def positional (style : NumberStyle) (digits : List Char) (e : Int) : List Char :=
  if e < 0 then
    '0' :: '.' :: (List.replicate (-e - 1).toNat '0' ++ digits)
  else if digits.length ≤ e.toNat + 1 then
    digits ++ List.replicate (e.toNat + 1 - digits.length) '0' ++ style.wholeTail
  else
    digits.take (e.toNat + 1) ++ '.' :: digits.drop (e.toNat + 1)

/-- Digits with a point after the first and the exponent `e` of the first. -/
def exponential (digits : List Char) (e : Int) : List Char :=
  digits.take 1 ++ (if digits.length ≤ 1 then [] else '.' :: digits.drop 1) ++ 'e' :: signed e

/-- Digits whose leading one has exponent `e`, in the form that the style asks for. -/
def layout (style : NumberStyle) (digits : List Char) (e : Int) : List Char :=
  if style.lowest ≤ e ∧ e ≤ style.highest then style.positional digits e
  else exponential digits e

/-- The text of a finite magnitude. -/
def writeMagnitude (style : NumberStyle) (code : Nat) : List Char :=
  if code = 0 then '0' :: style.wholeTail
  else
    let d := Shortest.decimal style.tie code
    let digits := digitsOf d.digits
    style.layout digits (d.exponent + digits.length - 1)

/-- The text of a finite number. -/
def write (style : NumberStyle) (x : Float) : List Char :=
  if Binary64.isNegative x && (style.signedZero || Binary64.code x != 0) then
    '-' :: style.writeMagnitude (Binary64.code x)
  else style.writeMagnitude (Binary64.code x)

end NumberStyle

namespace Number

/-- Shown numbers are positional from `0.000001` up to and excluding `10 ^ 21`, a whole number has
no point, negative zero has no sign, and a tie goes up. -/
def shownStyle : NumberStyle :=
  { lowest := -6, highest := 20, wholeTail := [], signedZero := false, tie := .up }

/-- The characters of a number's text as users see it. -/
def shown (x : Float) : List Char :=
  if x.isNaN then "NaN".toList
  else if Binary64.code x = Binary64.infinity then
    if Binary64.isNegative x then "-Infinity".toList else "Infinity".toList
  else shownStyle.write x

/-- The text of a number as users see it. -/
def display (x : Float) : String := String.ofList (shown x)

/-- The number whose shown text this is, up to blanks around it. Only a finite number has such a
text. -/
def canonical? (cs : List Char) : Option Float :=
  match ofText? (Text.trim cs) with
  | some x => if x.isFinite && shown x == Text.trim cs then some x else none
  | none => none

end Number

end OutlineLisp
