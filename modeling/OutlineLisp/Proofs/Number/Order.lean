import OutlineLisp.Proofs.Number.Canonical

/-!
# Rounding keeps the order

Of two quotients the greater never rounds to the smaller code. On one grid this is so because a
whole number and a half are passed in order. Between grids it is so because a coarser grid is only
used where its significand has all bits: the codes of a grid end where those of the next one begin.

## Main results

* `Binary64.nearest_le_nearest`: rounding keeps the order of quotients.
* `Decimal.scaledCode_mono`, `Decimal.scaledCode_mul_pow_sub`: decimals on one grid, and on two.
-/

namespace OutlineLisp

namespace Binary64

variable {num num' den : ℕ}

/-! ### Whole numbers -/

theorem div_le_roundHalfEven (num den : ℕ) : num / den ≤ roundHalfEven num den := by
  rw [roundHalfEven]
  split
  · exact Nat.le_refl _
  · split <;> omega

theorem roundHalfEven_mono (h : num ≤ num') : roundHalfEven num den ≤ roundHalfEven num' den := by
  rcases Nat.lt_or_eq_of_le (Nat.div_le_div_right h : num / den ≤ num' / den) with hlt | heq
  · calc roundHalfEven num den ≤ num / den + 1 := roundHalfEven_le num den
      _ ≤ num' / den := hlt
      _ ≤ roundHalfEven num' den := div_le_roundHalfEven num' den
  · -- with the same whole number below, the remainders decide
    have hmod : num % den ≤ num' % den := by
      have hnum := Nat.div_add_mod num den
      have hnum' := Nat.div_add_mod num' den
      rw [heq] at hnum
      omega
    rw [roundHalfEven, roundHalfEven, heq]
    split_ifs <;> omega

/-! ### Codes -/

theorem doublingsOf_mono (h : num ≤ num') : doublingsOf num den ≤ doublingsOf num' den := by
  have hlog : (num * unitsPerOne / den).log2 ≤ (num' * unitsPerOne / den).log2 := by
    rw [Nat.log2_eq_log_two, Nat.log2_eq_log_two]
    exact Nat.log_mono_right (Nat.div_le_div_right (Nat.mul_le_mul_right _ h))
  exact Nat.sub_le_sub_right hlog 52

/-- Rounded to a whole number, a significand has at most 53 bits or is the next power of two. -/
theorem roundHalfEven_doublingsOf_le (num den : ℕ) :
    roundHalfEven (num * unitsPerOne) (den <<< doublingsOf num den) ≤ 2 * leadingBit := by
  have hlt := div_doublingsOf_lt num den
  have hround := roundHalfEven_le (num * unitsPerOne) (den <<< doublingsOf num den)
  rw [Nat.shiftLeft_eq, ← Nat.div_div_eq_div_mul] at hround
  rw [leadingBit_eq, Nat.shiftLeft_eq]
  omega

/-- A significand that is doubled has its leading bit. -/
theorem leadingBit_le_roundHalfEven (h : doublingsOf num den ≠ 0) :
    leadingBit ≤ roundHalfEven (num * unitsPerOne) (den <<< doublingsOf num den) := by
  refine le_trans ?_ (div_le_roundHalfEven _ _)
  rw [Nat.shiftLeft_eq, ← Nat.div_div_eq_div_mul, Nat.le_div_iff_mul_le (Nat.two_pow_pos _)]
  rw [doublingsOf] at h ⊢
  generalize num * unitsPerOne / den = q at h ⊢
  have hq : q ≠ 0 := by
    rintro rfl
    exact h (by rw [Nat.log2_zero])
  calc leadingBit * 2 ^ (q.log2 - 52) = 2 ^ (52 + (q.log2 - 52)) := by
        rw [leadingBit, Nat.one_shiftLeft, Nat.pow_add]
    _ = 2 ^ q.log2 := by
        congr 1
        omega
    _ ≤ q := Nat.log2_self_le hq

theorem nearest_mono (h : num ≤ num') : nearest num den ≤ nearest num' den := by
  rw [nearest, nearest]
  refine min_le_min (Nat.le_refl infinity) ?_
  have hround := roundHalfEven_doublingsOf_le num den
  rcases Nat.lt_or_eq_of_le (doublingsOf_mono h : doublingsOf num den ≤ doublingsOf num' den)
    with hlt | heq
  · have hlead := leadingBit_le_roundHalfEven (Nat.ne_zero_of_lt hlt)
    have hcodes : (doublingsOf num den + 1) * leadingBit ≤ doublingsOf num' den * leadingBit :=
      Nat.mul_le_mul_right _ hlt
    rw [Nat.add_mul] at hcodes
    omega
  · rw [heq]
    exact Nat.add_le_add_left (roundHalfEven_mono (Nat.mul_le_mul_right _ h)) _

/-- **Rounding keeps the order of quotients.** -/
theorem nearest_le_nearest {den' : ℕ} (hden : 0 < den) (hden' : 0 < den')
    (h : num * den' ≤ num' * den) : nearest num den ≤ nearest num' den' := by
  rw [← nearest_mul_mul hden' num den, ← nearest_mul_mul hden num' den', Nat.mul_comm den' num,
    Nat.mul_comm den num', Nat.mul_comm den' den]
  exact nearest_mono h

end Binary64

namespace Decimal

open Binary64

/-- Rounding keeps the order of the points of a grid. -/
theorem scaledCode_mono {n m : ℕ} (h : n ≤ m) (j : ℤ) : scaledCode n j ≤ scaledCode m j := by
  rw [scaledCode_eq, scaledCode_eq]
  split
  · exact nearest_mono (Nat.mul_le_mul_right _ h)
  · exact nearest_mono h

/-- A point of a coarser grid is one of a finer grid. -/
theorem scaledCode_mul_pow_sub (n : ℕ) {i j : ℤ} (h : i ≤ j) :
    scaledCode (n * 10 ^ (j - i).toNat) i = scaledCode n j := by
  rw [← scaledCode_mul_pow n (j - i).toNat j]
  congr 1
  omega

theorem scaledCode_ten_pow (p : ℕ) (j : ℤ) : scaledCode (10 ^ p) j = scaledCode 1 (j + p) := by
  rw [← scaledCode_mul_pow 1 p, Int.add_sub_cancel, Nat.one_mul]

/-- Powers of ten round in their order. -/
theorem scaledCode_one_mono {i j : ℤ} (h : i ≤ j) : scaledCode 1 i ≤ scaledCode 1 j := by
  rw [← scaledCode_mul_pow_sub 1 h, Nat.one_mul]
  exact scaledCode_mono (Nat.pow_pos (by decide)) i

end Decimal

end OutlineLisp
