import OutlineLisp.Number.Decimal

/-!
# Roundings

A rounding makes a binary64 number of every numeral. There are two. `Rounding.nearest` rounds once,
from the exact value. `Rounding.stepwise` computes with binary64 numbers all the way: it takes the
leading digits that fit a word, rounds these, and then multiplies or divides by powers of ten, and
every one of these steps rounds. So it may miss the nearest number by the last few bits.

Either rounding answers infinity for what it finds beyond the finite range.

## Main definitions

* `Rounding`: functions from numerals to numbers.
* `Rounding.nearest`, `Rounding.stepwise`: the two roundings.
* `Numeral.leading`: the decimal of those digits of a numeral that fit a word.

## Main results

* `Numeral.leading_digits_lt`: the digits that are taken fit a word.
* `Numeral.leading_eq_toDecimal`: where all digits fit, all of them are taken.
-/

namespace OutlineLisp

namespace Numeral

/-- A run of digits after the number `n`, as far as the result fits a word of 64 bits, and the
digits that are left. -/
def takeFitting (n : Nat) : List Char → Nat × List Char
  | [] => (n, [])
  | c :: cs =>
    if 10 * n + (c.toNat - '0'.toNat) < UInt64.size then
      takeFitting (10 * n + (c.toNat - '0'.toNat)) cs
    else (n, c :: cs)

/-- The decimal of the digits that fit a word. Digits left before the point count as zeros, and
digits left after it not at all. The two runs are taken one after the other, each as far as it
goes. -/
def leading (n : Numeral) : Decimal :=
  let (whole, wholeLeft) := takeFitting 0 n.whole
  let (digits, placesLeft) := takeFitting whole n.places
  { negative := n.negative, digits,
    exponent := n.exponent + wholeLeft.length - (n.places.length - placesLeft.length) }

theorem takeFitting_lt {n : Nat} (h : n < UInt64.size) (cs : List Char) :
    (takeFitting n cs).1 < UInt64.size := by
  fun_induction takeFitting n cs with
  | case1 => exact h
  | case2 n c cs hc ih => exact ih hc
  | case3 => exact h

theorem leading_digits_lt (n : Numeral) : n.leading.digits < UInt64.size :=
  takeFitting_lt (takeFitting_lt (by decide) _) _

theorem le_ofDigitChars (n : Nat) (cs : List Char) : n ≤ Nat.ofDigitChars 10 cs n := by
  induction cs generalizing n with
  | nil => simp
  | cons c cs ih =>
    rw [Nat.ofDigitChars_cons]
    exact Nat.le_trans (by omega) (ih _)

theorem takeFitting_of_lt {n : Nat} {cs : List Char} (h : Nat.ofDigitChars 10 cs n < UInt64.size) :
    takeFitting n cs = (Nat.ofDigitChars 10 cs n, []) := by
  induction cs generalizing n with
  | nil => simp [takeFitting]
  | cons c cs ih =>
    rw [Nat.ofDigitChars_cons] at h ⊢
    rw [takeFitting, if_pos (Nat.lt_of_le_of_lt (le_ofDigitChars _ cs) h), ih h]

/-- **Numerals of few digits lose none of them.** -/
theorem leading_eq_toDecimal {n : Numeral} (h : n.toDecimal.digits < UInt64.size) :
    n.leading = n.toDecimal := by
  have hall : Nat.ofDigitChars 10 n.places (Nat.ofDigitChars 10 n.whole 0) < UInt64.size := by
    rwa [← Nat.ofDigitChars_append]
  have hwhole := Nat.lt_of_le_of_lt (le_ofDigitChars _ _) hall
  simp [leading, toDecimal, ofDigits, takeFitting_of_lt hwhole, takeFitting_of_lt hall,
    Nat.ofDigitChars_append]

end Numeral

/-- A number for every numeral. -/
abbrev Rounding := Numeral → Float

namespace Rounding

/-- The number nearest to the decimal that a numeral writes, a tie going to the even neighbour. -/
def nearest : Rounding := fun n => n.toDecimal.toFloat

/-- The number nearest to a natural number. -/
def ofNat (n : Nat) : Float := Binary64.ofCode false (Binary64.nearest n 1)

/-- The greatest exponent of a power of ten within the finite range. -/
def greatestExponent : Nat := 308

/-- The number nearest to a power of ten. -/
def powerOfTen (n : Nat) : Float := ofNat (Nat.pow 10 n)

/-- A number times a power of ten, infinite if the power alone is. Zero stays zero. -/
def scaleUp (x : Float) (n : Nat) : Float :=
  if n ≤ greatestExponent then x * powerOfTen n
  else if x == 0 then x
  else Number.infinite false

/-- A number over a power of ten. While the power is not finite, the greatest finite one is divided
off; this ends early once nothing but zero is left. -/
def scaleDown (x : Float) (n : Nat) : Float :=
  if n ≤ greatestExponent then x / powerOfTen n
  else if x == 0 then x
  else scaleDown (x / powerOfTen greatestExponent) (n - greatestExponent)
termination_by n
decreasing_by
  have : 0 < greatestExponent := by decide
  omega

/-- A number scaled by a power of ten. -/
def scale (x : Float) : Int → Float
  | .ofNat n => scaleUp x n
  | .negSucc n => scaleDown x (n + 1)

/-- The number that a numeral comes to in steps: the leading digits are rounded, and the result is
scaled. The sign has no part in it. -/
def stepwise : Rounding := fun n =>
  let magnitude := scale (ofNat n.leading.digits) n.leading.exponent
  if n.negative then -magnitude else magnitude

end Rounding

end OutlineLisp
