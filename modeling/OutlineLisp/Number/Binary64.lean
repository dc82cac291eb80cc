/-!
# Magnitudes of binary64 numbers

A binary64 number is a sign and a magnitude, and the low 63 bits of its pattern, read as a natural
number, order the magnitudes: `0` is zero, consecutive codes are neighbouring numbers, and
`Binary64.infinity` is the first code that is not finite. Everything below works on these codes.

Every finite magnitude is a whole number of *units*, one unit being the least positive magnitude,
`2 ^ (-1074)`. So no operation needs rational numbers: a quotient `num / den` of naturals is rounded
to a code by comparing it with whole numbers of units.

## Main definitions

* `Binary64.units code`: how many units the magnitude with that code holds.
* `Binary64.nearest num den`: the code nearest to `num / den`, a tie going to the even code.
* `Binary64.ofCode negative code`: the number with that sign and magnitude.

## Main results

* `Binary64.nearest_units`: rounding a finite magnitude gives back its code.
* `Binary64.nearest_mul_mul`: rounding depends on the quotient only.
-/

namespace OutlineLisp

namespace Binary64

/-- The code of infinity. The smaller codes are those of the finite magnitudes. -/
def infinity : Nat := 2047 <<< 52

/-- How many units make one. -/
def unitsPerOne : Nat := 1 <<< 1074

theorem unitsPerOne_pos : 0 < unitsPerOne := by decide +kernel

/-- The leading bit of a significand. Normal numbers do not store it. -/
def leadingBit : Nat := 1 <<< 52

theorem leadingBit_eq : leadingBit = 4503599627370496 := rfl

theorem infinity_eq : infinity = 2047 * leadingBit := rfl

/-- The doubling count of a code: a magnitude is its significand times two to this count, in
units. It is `0` for the subnormal numbers and for the least normal ones alike. -/
def doublings (code : Nat) : Nat := code / leadingBit - 1

/-- The significand of a code, with its leading bit. -/
def significand (code : Nat) : Nat := code - doublings code * leadingBit

/-- The magnitude with a code, counted in units. -/
def units (code : Nat) : Nat := significand code <<< doublings code

/-- The whole number nearest to `num / den`. A half goes to the even neighbour. -/
def roundHalfEven (num den : Nat) : Nat :=
  if 2 * (num % den) < den then num / den
  else if den < 2 * (num % den) then num / den + 1
  else num / den + num / den % 2

/-- The doubling count that a quotient has, counted in units, when its significand is to take at
most 53 bits. -/
def doublingsOf (num den : Nat) : Nat := (num * unitsPerOne / den).log2 - 52

/-- The code of the magnitude nearest to `num / den`. A tie goes to the even code, and what lies
beyond the finite range is infinite.

A significand that rounds up to 54 bits carries into the doubling count by itself, since the code
is the sum of the two. -/
def nearest (num den : Nat) : Nat :=
  min infinity (doublingsOf num den * leadingBit
    + roundHalfEven (num * unitsPerOne) (den <<< doublingsOf num den))

/-! ### Numbers as signed codes -/

/-- The bit in front of a code that stands for the sign. -/
def signBit : Nat := 1 <<< 63

theorem signBit_eq : signBit = 9223372036854775808 := rfl

/-- Whether the sign bit of a number is set. It is set for negative zero. -/
def isNegative (x : Float) : Bool := decide (signBit ≤ x.toBits.toNat)

/-- The code of a number's magnitude. -/
def code (x : Float) : Nat := x.toBits.toNat % signBit

/-- The number with a sign and the code of a magnitude. -/
def ofCode (negative : Bool) (code : Nat) : Float :=
  Float.ofBits (UInt64.ofNat (if negative then signBit + code else code))

/-! ### Rounding a whole number of units -/

theorem roundHalfEven_mul {den : Nat} (h : 0 < den) (q : Nat) :
    roundHalfEven (q * den) den = q := by
  simp [roundHalfEven, h]

theorem roundHalfEven_mul_mul {k : Nat} (h : 0 < k) (num den : Nat) :
    roundHalfEven (k * num) (k * den) = roundHalfEven num den := by
  simp only [roundHalfEven, Nat.mul_mod_mul_left, Nat.mul_div_mul_left _ _ h]
  rw [show 2 * (k * (num % den)) = k * (2 * (num % den)) by ac_rfl]
  simp only [Nat.mul_lt_mul_left h]

/-- Rounding depends on the quotient only, not on how it is written. -/
theorem nearest_mul_mul {k : Nat} (h : 0 < k) (num den : Nat) :
    nearest (k * num) (k * den) = nearest num den := by
  have hd : doublingsOf (k * num) (k * den) = doublingsOf num den := by
    rw [doublingsOf, doublingsOf, Nat.mul_assoc, Nat.mul_div_mul_left _ _ h]
  rw [nearest, nearest, hd, Nat.shiftLeft_eq, Nat.shiftLeft_eq, Nat.mul_assoc, Nat.mul_assoc,
    roundHalfEven_mul_mul h]

theorem doublings_mul_le (code : Nat) : doublings code * leadingBit ≤ code := by
  rw [doublings, leadingBit_eq]
  omega

/-- The significand of a finite magnitude has at most 53 bits. -/
theorem significand_lt (code : Nat) : significand code < 2 * leadingBit := by
  rw [significand, doublings, leadingBit_eq]
  omega

/-- Only subnormal significands lack the leading bit, and these are not doubled. -/
theorem le_significand {code : Nat} (h : doublings code ≠ 0) : leadingBit ≤ significand code := by
  rw [significand, leadingBit_eq]
  rw [doublings, leadingBit_eq] at h ⊢
  omega

theorem doublingsOf_units (code : Nat) : doublingsOf (units code) unitsPerOne = doublings code := by
  have hlt : significand code < 2 ^ 53 := significand_lt code
  rw [doublingsOf, Nat.mul_div_cancel _ unitsPerOne_pos, units, Nat.shiftLeft_eq]
  by_cases h : doublings code = 0
  · have : (significand code).log2 < 53 := by
      by_cases h0 : significand code = 0
      · simp [h0]
      · exact (Nat.log2_lt h0).2 hlt
    simp only [h, Nat.pow_zero, Nat.mul_one]
    omega
  · have hle : 2 ^ 52 ≤ significand code := le_significand h
    have h0 : significand code ≠ 0 := by
      have : 0 < 2 ^ 52 := Nat.pow_pos (by decide)
      omega
    have h1 : significand code * 2 ^ doublings code ≠ 0 :=
      Nat.mul_ne_zero h0 (Nat.pos_iff_ne_zero.1 (Nat.pow_pos (by decide)))
    have hlog : (significand code * 2 ^ doublings code).log2 = 52 + doublings code := by
      rw [Nat.log2_eq_iff h1]
      refine ⟨?_, ?_⟩
      · rw [Nat.pow_add]
        exact Nat.mul_le_mul_right _ hle
      · rw [show 52 + doublings code + 1 = 53 + doublings code by omega, Nat.pow_add]
        exact Nat.mul_lt_mul_of_pos_right hlt (Nat.pow_pos (by decide))
    omega

/-- **Rounding is exact where it can be:** a finite magnitude, given as a quotient, rounds to its
own code. -/
theorem nearest_units {code : Nat} (h : code ≤ infinity) :
    nearest (units code) unitsPerOne = code := by
  rw [nearest, doublingsOf_units]
  have hr : roundHalfEven (units code * unitsPerOne) (unitsPerOne <<< doublings code)
      = significand code := by
    rw [units, Nat.shiftLeft_eq, Nat.shiftLeft_eq, Nat.mul_assoc,
      Nat.mul_comm (2 ^ doublings code)]
    exact roundHalfEven_mul (Nat.mul_pos unitsPerOne_pos (Nat.pow_pos (by decide))) _
  rw [hr, significand]
  have := doublings_mul_le code
  omega

end Binary64

end OutlineLisp
