import OutlineLisp.Proofs.Number.Pattern
import OutlineLisp.Proofs.Number.Spelling
import OutlineLisp.Proofs.Text.Trimming

/-!
# Canonical texts

The shown text of a finite number reads back as the number. There is one exception: negative zero is
shown like zero, and reads back as zero. So the canonical texts are the shown texts of all finite
numbers but negative zero.

The shown text is a spelling of the shortest decimal that reads back, and reads back itself since
neither zeros at the end nor the bounds on exponents that are given up on make a difference to what
a decimal rounds to.

## Main definitions

* `Spelling.code`: the code of the magnitude that a spelling denotes.
* `Number.negativeZero`: the finite number without a canonical text.

## Main results

* `Decimal.nearestCode_eq`: no decimal is given up on wrongly.
* `NumberStyle.exists_spelling_writeMagnitude`: written magnitudes read back.
* `Number.canonical?_eq_some_iff`: the canonical texts.
-/

namespace OutlineLisp

/-! ### Rounding of very large and very small quotients -/

namespace Binary64

theorem nearest_eq_infinity {num den : Nat} (h : 2099 ≤ (num * unitsPerOne / den).log2) :
    nearest num den = infinity := by
  have hd : 2047 ≤ doublingsOf num den := by
    rw [doublingsOf]
    omega
  have hle : infinity ≤ doublingsOf num den * leadingBit := by
    rw [infinity_eq]
    exact Nat.mul_le_mul_right leadingBit hd
  exact Nat.min_eq_left (Nat.le_trans hle (Nat.le_add_right _ _))

theorem nearest_eq_zero {num den : Nat} (h : 2 * (num * unitsPerOne) < den) :
    nearest num den = 0 := by
  have hlt : num * unitsPerOne < den := by omega
  have hd : doublingsOf num den = 0 := by
    rw [doublingsOf, Nat.div_eq_of_lt hlt]
    rfl
  rw [nearest, hd, Nat.shiftLeft_zero, roundHalfEven, Nat.mod_eq_of_lt hlt, if_pos h,
    Nat.div_eq_of_lt hlt]
  exact Nat.min_eq_right (Nat.zero_le _)

theorem roundHalfEven_le (num den : Nat) : roundHalfEven num den ≤ num / den + 1 := by
  rw [roundHalfEven]
  split
  · omega
  · split <;> omega

/-- A significand has at most 53 bits before it is rounded. -/
theorem div_doublingsOf_lt (num den : Nat) :
    num * unitsPerOne / den / 2 ^ doublingsOf num den < 2 ^ 53 := by
  rw [doublingsOf]
  generalize num * unitsPerOne / den = u
  rw [Nat.div_lt_iff_lt_mul (Nat.two_pow_pos _), ← Nat.pow_add]
  exact Nat.lt_of_lt_of_le Nat.lt_log2_self (Nat.pow_le_pow_right (by decide) (by omega))

private theorem doublingsOf_le_aux {k n : Nat} (hk : k ≤ 1074) (hu : unitsPerOne = 1 <<< k)
    (hn : n < 2 ^ 64) : doublingsOf n 1 ≤ 1086 := by
  rw [doublingsOf, Nat.div_one, hu, Nat.one_shiftLeft]
  have hlt : n * 2 ^ k < 2 ^ (64 + k) := by
    rw [Nat.pow_add]
    exact Nat.mul_lt_mul_of_pos_right hn (Nat.two_pow_pos k)
  by_cases hzero : n * 2 ^ k = 0
  · simp [hzero]
  · have hlog := (Nat.log2_lt hzero).2 hlt
    omega

/-- A natural number of 64 bits is within the finite range. -/
theorem nearest_lt_infinity {n : Nat} (h : n < 2 ^ 64) : nearest n 1 < infinity := by
  have hd := doublingsOf_le_aux (Nat.le_refl 1074) rfl h
  have hround := roundHalfEven_le (n * unitsPerOne) (1 <<< doublingsOf n 1)
  have hlt := div_doublingsOf_lt n 1
  rw [Nat.one_shiftLeft] at hround
  rw [Nat.div_one] at hlt
  rw [nearest, infinity_eq, leadingBit_eq, Nat.one_shiftLeft]
  refine Nat.lt_of_le_of_lt (Nat.min_le_right _ _) ?_
  omega

end Binary64

namespace Decimal

open Binary64

theorem two_pow_le_ten_pow (n : Nat) : 2 ^ (3 * n) ≤ 10 ^ n := by
  rw [Nat.pow_mul]
  exact Nat.pow_le_pow_left (by decide) n

theorem scaledCode_eq (n : Nat) (e : Int) :
    scaledCode n e
      = if 0 ≤ e then nearest (n * 10 ^ e.toNat) 1 else nearest n (10 ^ (-e).toNat) := rfl

theorem scaledCode_zero (e : Int) : scaledCode 0 e = 0 := by
  have hten (n : Nat) : 0 < 10 ^ n := Nat.pow_pos (by decide)
  rw [scaledCode_eq]
  split
  · rw [Nat.zero_mul]
    exact nearest_eq_zero (by rw [Nat.zero_mul]; decide)
  · exact nearest_eq_zero (by rw [Nat.zero_mul]; exact hten _)

private theorem scaledCode_of_large_aux {k n : Nat} {e : Int} (hk : 1000 ≤ k)
    (hu : unitsPerOne = 1 <<< k) (hn : n ≠ 0) (he : 400 < e) : scaledCode n e = infinity := by
  have hpos : 0 ≤ e := by omega
  have hpow : 2 ^ (3 * e.toNat + k) ≤ n * 10 ^ e.toNat * 2 ^ k := by
    rw [Nat.pow_add]
    refine Nat.mul_le_mul_right _ (Nat.le_trans (two_pow_le_ten_pow _) ?_)
    exact Nat.le_mul_of_pos_left _ (Nat.pos_of_ne_zero hn)
  have hne : n * 10 ^ e.toNat * 2 ^ k ≠ 0 :=
    Nat.pos_iff_ne_zero.1 (Nat.lt_of_lt_of_le (Nat.two_pow_pos _) hpow)
  have hlog : 3 * e.toNat + k ≤ (n * 10 ^ e.toNat * 2 ^ k).log2 := (Nat.le_log2 hne).2 hpow
  rw [scaledCode_eq, if_pos hpos]
  refine nearest_eq_infinity ?_
  rw [Nat.div_one, hu, Nat.one_shiftLeft]
  omega

theorem scaledCode_of_large {n : Nat} {e : Int} (hn : n ≠ 0) (he : 400 < e) :
    scaledCode n e = infinity :=
  scaledCode_of_large_aux (k := 1074) (by decide) rfl hn he

private theorem scaledCode_of_small_aux {k n : Nat} {e : Int} (hk : k ≤ 3000)
    (hu : unitsPerOne = 1 <<< k) (he : e < -(1100 + (n.log2 : Int))) : scaledCode n e = 0 := by
  have hlog : n * 2 ^ k < 2 ^ (n.log2 + 1) * 2 ^ k :=
    Nat.mul_lt_mul_of_pos_right Nat.lt_log2_self (Nat.two_pow_pos k)
  rw [scaledCode_eq, if_neg (by omega)]
  refine nearest_eq_zero ?_
  rw [hu, Nat.one_shiftLeft]
  calc 2 * (n * 2 ^ k) < 2 * (2 ^ (n.log2 + 1) * 2 ^ k) :=
        Nat.mul_lt_mul_of_pos_left hlog (by decide)
    _ = 2 * 2 ^ (n.log2 + 1 + k) := by rw [Nat.pow_add 2 (n.log2 + 1)]
    _ = 2 ^ (n.log2 + 1 + k + 1) := Nat.pow_succ'.symm
    _ ≤ 2 ^ (3 * (-e).toNat) := Nat.pow_le_pow_right (by decide) (by omega)
    _ ≤ 10 ^ (-e).toNat := two_pow_le_ten_pow _

theorem scaledCode_of_small {n : Nat} {e : Int} (he : e < -(1100 + (n.log2 : Int))) :
    scaledCode n e = 0 :=
  scaledCode_of_small_aux (k := 1074) (by decide) rfl he

/-- **No decimal is given up on wrongly:** the power of ten is left out of the computation only
where the result is known without it. -/
theorem nearestCode_eq (d : Decimal) : d.nearestCode = scaledCode d.digits d.exponent := by
  rw [nearestCode]
  split
  · next h => rw [h, scaledCode_zero]
  · next h =>
    split
    · next he => exact (scaledCode_of_large h he).symm
    · split
      · next he => exact (scaledCode_of_small he).symm
      · rfl

/-- Zeros at the end of the digits are a power of ten. -/
theorem scaledCode_mul_pow (n k : Nat) (e : Int) :
    scaledCode (n * 10 ^ k) (e - k) = scaledCode n e := by
  have hten (n : Nat) : 0 < 10 ^ n := Nat.pow_pos (by decide)
  rw [scaledCode_eq, scaledCode_eq]
  by_cases he : 0 ≤ e
  · rw [if_pos he]
    by_cases hk : 0 ≤ e - k
    · rw [if_pos hk, Nat.mul_assoc, ← Nat.pow_add]
      congr 3
      omega
    · have hsplit : k = (-(e - k)).toNat + e.toNat := by omega
      have hnum : n * 10 ^ k = 10 ^ (-(e - k)).toNat * (n * 10 ^ e.toNat) := by
        rw [Nat.mul_left_comm, ← Nat.pow_add, ← hsplit]
      rw [if_neg hk, hnum, ← nearest_mul_mul (hten (-(e - k)).toNat) (n * 10 ^ e.toNat) 1,
        Nat.mul_one]
  · have hsplit : (-(e - k)).toNat = k + (-e).toNat := by omega
    rw [if_neg he, if_neg (by omega), hsplit, Nat.pow_add, Nat.mul_comm n]
    exact nearest_mul_mul (hten _) _ _

end Decimal

/-! ### Written magnitudes -/

namespace Spelling

/-- The code of the magnitude that a spelling denotes. -/
def code (s : Spelling) : Nat :=
  Decimal.scaledCode (Numeral.ofDigits (s.whole ++ s.places))
    (s.exponent.getD 0 - s.places.length)

theorem Writes.code_eq {s : Spelling} {n : Nat} {j : Int} (h : s.Writes n j) :
    s.code = Decimal.scaledCode n j := by
  obtain ⟨k, hn, hj⟩ := h
  rw [code, hn, hj, Decimal.scaledCode_mul_pow]

end Spelling

namespace NumberStyle

variable {style : NumberStyle}

/-- The text of a magnitude that is not zero is a spelling of the shortest decimal. -/
theorem exists_spelling_writes (htail : style.wholeTail = [] ∨ style.wholeTail = ['.', '0'])
    {code : Nat} (hne : code ≠ 0) :
    ∃ s : Spelling, s.text = style.writeMagnitude code ∧
      s.Writes (Shortest.decimal style.tie code).digits
        (Shortest.decimal style.tie code).exponent := by
  obtain ⟨s, htext, hwrites⟩ := exists_spelling htail
    (digitsOf_ne_nil (Shortest.decimal style.tie code).digits)
    (fun _ => isDigit_of_mem_digitsOf)
    ((Shortest.decimal style.tie code).exponent
      + (digitsOf (Shortest.decimal style.tie code).digits).length - 1)
  have hexponent (e : Int) (n : Nat) : e + n - 1 + 1 - n = e := by omega
  rw [ofDigits_digitsOf, hexponent] at hwrites
  refine ⟨s, ?_, hwrites⟩
  rw [htext, writeMagnitude, if_neg hne]

/-- **Written magnitudes read back:** the text of a finite magnitude is a spelling that denotes
it. -/
theorem exists_spelling_writeMagnitude
    (htail : style.wholeTail = [] ∨ style.wholeTail = ['.', '0']) {code : Nat}
    (h : code ≤ Binary64.infinity) :
    ∃ s : Spelling, s.text = style.writeMagnitude code ∧ s.code = code := by
  by_cases hzero : code = 0
  · have hdigit : ∀ c ∈ ['0'], c.isDigit = true := List.forall_mem_singleton.2 (by decide)
    rw [writeMagnitude, if_pos hzero, hzero]
    rcases htail with htail | htail
    · refine ⟨⟨['0'], [], none, List.cons_ne_nil _ _, hdigit, fun c hc => by cases hc⟩, ?_, ?_⟩
      · rw [htail]
        rfl
      · exact Decimal.scaledCode_zero _
    · refine ⟨⟨['0'], ['0'], none, List.cons_ne_nil _ _, hdigit, hdigit⟩, ?_, ?_⟩
      · rw [htail]
        rfl
      · exact Decimal.scaledCode_zero _
  · obtain ⟨s, htext, hwrites⟩ := exists_spelling_writes htail hzero
    refine ⟨s, htext, ?_⟩
    rw [hwrites.code_eq]
    exact Shortest.scaledCode_decimal style.tie h

end NumberStyle

/-! ### Shown numbers -/

namespace Number

open Binary64

/-- Negative zero. -/
def negativeZero : Float := ofCode true 0

theorem isNegative_and_code_ne_zero {x : Float} (hz : x ≠ negativeZero) :
    (isNegative x && code x != 0) = isNegative x := by
  cases hneg : isNegative x with
  | false => rfl
  | true =>
    have hcode : code x ≠ 0 := by
      intro hcode
      rw [← ofCode_code x, hneg, hcode] at hz
      exact hz rfl
    simp [hcode]

/-- The shown text of a finite number is that of its magnitude, with a sign unless it is zero. -/
theorem shown_eq {x : Float} (h : x.isFinite = true) :
    shown x = signText (isNegative x && code x != 0) ++ shownStyle.writeMagnitude (code x) := by
  have hlt : code x < infinity := (isFinite_iff x).1 h
  rw [shown, isNaN_eq_false h, if_neg Bool.false_ne_true, if_neg (Nat.ne_of_lt hlt),
    NumberStyle.write]
  cases hsign : isNegative x && code x != 0 <;> simp [shownStyle, hsign, signText]

/-- It is a spelling. -/
theorem exists_shown_eq {x : Float} (h : x.isFinite = true) :
    ∃ s : Spelling, shown x = signText (isNegative x && code x != 0) ++ s.text ∧
      s.code = code x := by
  obtain ⟨s, htext, hcode⟩ := shownStyle.exists_spelling_writeMagnitude (.inl rfl)
    (Nat.le_of_lt ((isFinite_iff x).1 h))
  exact ⟨s, by rw [shown_eq h, htext], hcode⟩

theorem toFloat_toDecimal (negative : Bool) (s : Spelling) :
    (Numeral.toDecimal ⟨negative, s.whole, s.places, s.exponent.getD 0⟩).toFloat
      = ofCode negative s.code := by
  rw [Decimal.toFloat, Decimal.nearestCode_eq]
  rfl

/-- What a shown text reads back as. -/
theorem ofText?_shown {x : Float} (h : x.isFinite = true) :
    ofText? (shown x) = some (ofCode (isNegative x && code x != 0) (code x)) := by
  obtain ⟨s, hshown, hcode⟩ := exists_shown_eq h
  rw [hshown, ofText?_append_text, toFloat_toDecimal, hcode]

theorem shown_ne_nil {x : Float} (h : x.isFinite = true) : shown x ≠ [] := by
  obtain ⟨s, hshown, -⟩ := exists_shown_eq h
  obtain ⟨c, cs, htext, -⟩ := s.exists_text_eq_cons
  rw [hshown, htext]
  exact List.append_ne_nil_of_right_ne_nil _ (List.cons_ne_nil c cs)

theorem isNumberChar_of_mem_shown {x : Float} (h : x.isFinite = true) {c : Char}
    (hc : c ∈ shown x) : Spelling.IsNumberChar c := by
  obtain ⟨s, hshown, -⟩ := exists_shown_eq h
  rw [hshown] at hc
  rcases List.mem_append.1 hc with hc | hc
  · rw [signText] at hc
    split at hc
    · rw [List.mem_singleton.1 hc]
      exact .inr (by decide)
    · cases hc
  · exact Spelling.isNumberChar_of_mem_text hc

theorem isBlank_of_isNumberChar {c : Char} (h : Spelling.IsNumberChar c) :
    Text.isBlank c = false := by
  rcases h with h | h
  · obtain ⟨hlower, hupper⟩ := Numeral.toNat_of_isDigit h
    simp [Text.isBlank, Text.inRanges, Text.blankRanges]
    omega
  · have hall : ['.', 'e', '+', '-'].all (fun c => !Text.isBlank c) = true := by decide
    have hc := List.all_eq_true.1 hall c h
    rwa [Bool.not_eq_true'] at hc

theorem trimmed_shown {x : Float} (h : x.isFinite = true) : Text.Trimmed (shown x) :=
  Text.trimmed_of_forall fun _ hc => isBlank_of_isNumberChar (isNumberChar_of_mem_shown h hc)

/-! ### Canonical texts -/

/-- **The canonical texts** are, up to blanks around them, the shown texts of the finite numbers
other than negative zero. -/
theorem canonical?_eq_some_iff {cs : List Char} {x : Float} :
    canonical? cs = some x ↔
      x.isFinite = true ∧ x ≠ negativeZero ∧ shown x = Text.trim cs := by
  constructor
  · intro h
    rw [canonical?] at h
    split at h
    · next y hy =>
      split at h
      · next hcond =>
        obtain rfl := Option.some.inj h
        obtain ⟨hfin, hshown⟩ := Bool.and_eq_true_iff.1 hcond
        have hshown : shown y = Text.trim cs := eq_of_beq hshown
        refine ⟨hfin, ?_, hshown⟩
        -- zero would be read from the text of negative zero
        rintro rfl
        rw [← hshown, ofText?_shown hfin] at hy
        exact absurd (Option.some.inj hy) (by decide +kernel)
      · cases h
    · cases h
  · rintro ⟨hfin, hz, hshown⟩
    rw [canonical?, ← hshown, ofText?_shown hfin, isNegative_and_code_ne_zero hz,
      ofCode_code]
    simp [hfin]

end Number

end OutlineLisp
