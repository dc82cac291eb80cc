import OutlineLisp.Proofs.Number.Shortest
import OutlineLisp.Proofs.Number.Significance

/-!
# Number texts are exact

A text is read as a number only if it is the text that the number is shown as, so reading and
showing undo each other. Of two texts of one number at most one is canonical, and it is the one with
the fewest significant digits.

Two decisions of the format are said here in terms of numbers. The border between the two forms is
drawn by the exponent of the leading digit, and this is a border between numbers. What is shown has
the fewest digits that read back.

## Main definitions

* `Number.ReadExactly`: which number a text is read as, and when none.
* `Number.ShownExactly`: what the shown text of a number says about the number.

## Main results

* `NumberStyle.writeMagnitude_eq`: which magnitudes are written positionally.
* `Number.length_significant_le`: no text of a number has fewer digits than the canonical one.
* `Number.readExactly_and_shownExactly`: texts that are read, and numbers that are shown.
-/

namespace OutlineLisp

open Binary64 Decimal

/-! ### Where the forms change -/

namespace NumberStyle

/-- A number that is not zero is as great as the count of its digits says. -/
theorem pow_length_digitsOf_le {n : ℕ} (h : 0 < n) : 10 ^ ((digitsOf n).length - 1) ≤ n := by
  rcases Nat.eq_zero_or_pos ((digitsOf n).length - 1) with hzero | hpos
  · rw [hzero, Nat.pow_zero]
    exact h
  · rw [← Nat.not_lt, ← Nat.length_toDigits_le_iff (by decide) hpos]
    have hlength : (Nat.toDigits 10 n).length = (digitsOf n).length := rfl
    omega

theorem lt_pow_length_digitsOf (n : ℕ) : n < 10 ^ (digitsOf n).length :=
  (Nat.length_toDigits_le_iff (by decide) Nat.length_toDigits_pos).1 (Nat.le_refl _)

end NumberStyle

namespace Shortest

/-- The exponent of the leading digit of the chosen decimal. -/
def leading (tie : Tie) (code : ℕ) : ℤ :=
  (decimal tie code).exponent + (NumberStyle.digitsOf (decimal tie code).digits).length - 1

/-- It is compared with others as the magnitude is with powers of ten. -/
theorem le_leading_iff (tie : Tie) {code : ℕ} (hpos : 0 < code) (h : code < infinity) (k : ℤ) :
    k ≤ leading tie code ↔ scaledCode 1 k ≤ code := by
  have hread := scaledCode_decimal tie h.le
  have hcoarse (hk : scaledCode 1 k = code) := le_exponent_decimal tie hpos h hk
  rw [leading]
  generalize decimal tie code = d at hread hcoarse ⊢
  have hlength : 0 < (NumberStyle.digitsOf d.digits).length :=
    List.length_pos_of_ne_nil (NumberStyle.digitsOf_ne_nil _)
  constructor
  · intro hk
    have hdigits : 0 < d.digits := by
      refine Nat.pos_of_ne_zero fun hzero => ?_
      rw [hzero, scaledCode_zero] at hread
      omega
    calc scaledCode 1 k
        ≤ scaledCode 1 (d.exponent + ((NumberStyle.digitsOf d.digits).length - 1 : ℕ)) :=
          scaledCode_one_mono (by omega)
      _ = scaledCode (10 ^ ((NumberStyle.digitsOf d.digits).length - 1)) d.exponent :=
          (scaledCode_ten_pow _ _).symm
      _ ≤ scaledCode d.digits d.exponent :=
          scaledCode_mono (NumberStyle.pow_length_digitsOf_le hdigits) _
      _ = code := hread
  · intro hk
    by_contra hlt
    -- then the power of ten reads back as well, and on a coarser grid
    have hle : code ≤ scaledCode 1 k :=
      calc code = scaledCode d.digits d.exponent := hread.symm
        _ ≤ scaledCode (10 ^ (NumberStyle.digitsOf d.digits).length) d.exponent :=
          scaledCode_mono (NumberStyle.lt_pow_length_digitsOf _).le _
        _ = scaledCode 1 (d.exponent + (NumberStyle.digitsOf d.digits).length) :=
          scaledCode_ten_pow _ _
        _ ≤ scaledCode 1 k := scaledCode_one_mono (by omega)
    have hexponent := hcoarse (Nat.le_antisymm hk hle)
    omega

end Shortest

namespace NumberStyle

/-- **Where the forms change:** a magnitude is written positionally from the lowest power of ten up
to, and excluding, the one behind the highest. -/
theorem writeMagnitude_eq (style : NumberStyle) {code : ℕ} (hpos : 0 < code) (h : code < infinity) :
    style.writeMagnitude code
      = (if scaledCode 1 style.lowest ≤ code ∧ code < scaledCode 1 (style.highest + 1) then
          style.positional else exponential)
        (digitsOf (Shortest.decimal style.tie code).digits) (Shortest.leading style.tie code) := by
  have hlowest := Shortest.le_leading_iff style.tie hpos h style.lowest
  have hhighest := Shortest.le_leading_iff style.tie hpos h (style.highest + 1)
  have hborder : (style.lowest ≤ Shortest.leading style.tie code ∧
      Shortest.leading style.tie code ≤ style.highest) ↔
        scaledCode 1 style.lowest ≤ code ∧ code < scaledCode 1 (style.highest + 1) := by
    rw [hlowest, ← Nat.not_le, ← hhighest]
    omega
  show (if code = 0 then _ else _) = _
  rw [if_neg hpos.ne']
  show style.layout _ (Shortest.leading style.tie code) = _
  rw [layout]
  split
  · next hform => rw [if_pos (hborder.1 hform)]
  · next hform => rw [if_neg (mt hborder.2 hform)]

end NumberStyle

/-! ### Numerals of one number -/

theorem Numeral.isDigit_of_ofText? {cs : List Char} {n : Numeral} (h : ofText? cs = some n) :
    ∀ c ∈ n.whole ++ n.places, c.isDigit = true := by
  have hfraction (cs : List Char) : ∀ c ∈ (fraction cs).1, c.isDigit = true := by
    intro c hc
    rw [fraction.eq_def] at hc
    split at hc
    · exact List.mem_takeWhile_imp hc
    · cases hc
  rw [ofText?, ofUnsigned?] at h
  dsimp only at h
  split at h
  · cases h
  · obtain ⟨e, -, rfl⟩ := Option.map_eq_some_iff.1 h
    intro c hc
    rcases List.mem_append.1 hc with hwhole | hplaces
    · exact List.mem_takeWhile_imp hwhole
    · exact hfraction _ c hplaces

/-- A decimal that rounds to a finite number rounds to its code. -/
theorem Decimal.code_toFloat {d : Decimal} (h : d.toFloat.isFinite = true) :
    code d.toFloat = scaledCode d.digits d.exponent := by
  have hle : d.nearestCode ≤ infinity := by
    rw [nearestCode_eq, scaledCode_eq]
    split <;> exact Nat.min_le_left _ _
  rcases Nat.lt_or_eq_of_le hle with hlt | heq
  · rw [toFloat, code_ofCode d.negative hlt, nearestCode_eq]
  · rw [toFloat, heq] at h
    cases hneg : d.negative <;> rw [hneg] at h <;> exact absurd h (by decide +kernel)

namespace Number

/-- A number without the sign of a negative zero. -/
theorem ofCode_sign (x : Float) :
    ofCode (isNegative x && code x != 0) (code x) = if x = negativeZero then 0 else x := by
  split
  · next h =>
    rw [h]
    decide +kernel
  · next h => rw [isNegative_and_code_ne_zero h, ofCode_code]

variable {cs : List Char} {x : Float} {n m : Numeral}

/-- What the numeral of a shown text denotes. -/
theorem toFloat_of_shown (hx : x.isFinite = true) (hn : Numeral.ofText? (shown x) = some n) :
    n.toDecimal.toFloat = if x = negativeZero then 0 else x := by
  obtain ⟨s, hshown, hcode⟩ := exists_shown_eq hx
  rw [hshown, numeral_append_text] at hn
  rw [← Option.some.inj hn, toFloat_toDecimal, hcode, ofCode_sign]

/-- **No numeral is shorter:** of the numerals of one number, that of the shown text has the fewest
significant digits. -/
theorem length_significant_le (hx : x.isFinite = true) (hn : Numeral.ofText? (shown x) = some n)
    (hm : Numeral.ofText? cs = some m) (hvalue : m.toDecimal.toFloat = x) :
    n.significant.length ≤ m.significant.length := by
  have hcode : scaledCode m.toDecimal.digits m.toDecimal.exponent = code x := by
    rw [← hvalue] at hx ⊢
    exact (Decimal.code_toFloat hx).symm
  obtain ⟨w, k, hw, hdigits⟩ :=
    (Numeral.length_significant_le_iff (Numeral.isDigit_of_ofText? hm)).1 (Nat.le_refl _)
  rw [Numeral.length_significant_le_iff (Numeral.isDigit_of_ofText? hn)]
  by_cases hzero : code x = 0
  · have hshown : shown x = ['0'] := by
      rw [shown_eq hx, hzero, bne_self_eq_false, Bool.and_false]
      rfl
    rw [hshown] at hn
    obtain rfl := Option.some.inj hn
    exact ⟨0, 0, Nat.pow_pos (by decide), rfl⟩
  · obtain ⟨s, htext, i, hshown, -⟩ :=
      shownStyle.exists_spelling_writes (.inl rfl) hzero
    rw [shown_eq hx, ← htext, numeral_append_text] at hn
    obtain rfl := Option.some.inj hn
    have hread : scaledCode w (m.toDecimal.exponent + k) = code x := by
      rw [← scaledCode_mul_pow w k, Int.add_sub_cancel, ← hdigits]
      exact hcode
    exact ⟨_, i, Shortest.digits_decimal_lt _ (Nat.pos_of_ne_zero hzero) ((isFinite_iff x).1 hx)
      hread hw, hshown⟩

/-! ### Texts that are read and numbers that are shown -/

/-- Which number a text is read as, and when it is read as none. -/
structure ReadExactly (cs : List Char) : Prop where
  /-- It is read as a number if it is, up to blanks around it, the text of that number. -/
  iff : ∀ x, canonical? cs = some x ↔
    x.isFinite = true ∧ x ≠ negativeZero ∧ Text.trim cs = shown x
  /-- It is not read if it denotes a number that is not finite, or negative zero, or a number that
  is written in another way. -/
  rejected : (∀ x, ofText? (Text.trim cs) = some x →
    x.isFinite = false ∨ x = negativeZero ∨ Text.trim cs ≠ shown x) → canonical? cs = none
  /-- It is not read if a text with fewer significant digits denotes the same number. -/
  notShortest : ∀ ds n m, Numeral.ofText? (Text.trim cs) = some n → Numeral.ofText? ds = some m →
    m.toDecimal.toFloat = n.toDecimal.toFloat → m.significant.length < n.significant.length →
    canonical? cs = none

theorem readExactly (cs : List Char) : ReadExactly cs where
  iff x := by
    rw [canonical?_eq_some_iff, eq_comm (a := shown x)]
  rejected h := by
    refine Option.eq_none_iff_forall_ne_some.2 fun x hx => ?_
    obtain ⟨hfinite, hzero, hshown⟩ := canonical?_eq_some_iff.1 hx
    have hdenotes : ofText? (Text.trim cs) = some x := by
      rw [← hshown, ofText?_shown hfinite, ofCode_sign, if_neg hzero]
    rcases h x hdenotes with hnot | hnegative | hother
    · rw [hfinite] at hnot
      cases hnot
    · exact hzero hnegative
    · exact hother hshown.symm
  notShortest ds n m hn hm hvalue hlt := by
    refine Option.eq_none_iff_forall_ne_some.2 fun x hx => ?_
    obtain ⟨hfinite, hzero, hshown⟩ := canonical?_eq_some_iff.1 hx
    rw [← hshown] at hn
    rw [toFloat_of_shown hfinite hn, if_neg hzero] at hvalue
    exact absurd (length_significant_le hfinite hn hm hvalue) (Nat.not_le.2 hlt)

/-- What the shown text of a finite number says about the number. -/
structure ShownExactly (x : Float) : Prop where
  /-- It is read as the number, and that of negative zero as zero. -/
  canonical : x.isFinite = true → canonical? (shown x) = some (if x = negativeZero then 0 else x)
  /-- Numbers with the same text are equal. -/
  inj : x.isFinite = true → ∀ y, y.isFinite = true → shown x = shown y → (x == y) = true

theorem canonical?_shown (hx : x.isFinite = true) :
    canonical? (shown x) = some (if x = negativeZero then 0 else x) := by
  rw [canonical?_eq_some_iff, trimmed_shown hx]
  split
  · next hzero =>
    rw [hzero]
    decide +kernel
  · next hzero => exact ⟨hx, hzero, rfl⟩

/-- Numbers with the same text are equal: they differ at most by the sign of a zero. -/
theorem beq_of_shown_eq {y : Float} (hx : x.isFinite = true) (hy : y.isFinite = true)
    (h : shown x = shown y) : (x == y) = true := by
  have hread : (if x = negativeZero then 0 else x) = if y = negativeZero then 0 else y := by
    have htext := canonical?_shown hx
    rw [h, canonical?_shown hy] at htext
    exact (Option.some.inj htext).symm
  have hminus : negativeZero = -0 := by decide +kernel
  refine Float.beq_iff_ne_nan_and_eq.2 ⟨ne_nan hx, ne_nan hy, ?_⟩
  rw [← hminus]
  by_cases hxzero : x = negativeZero
  · rw [if_pos hxzero] at hread
    by_cases hyzero : y = negativeZero
    · exact .inl (hxzero.trans hyzero.symm)
    · rw [if_neg hyzero] at hread
      exact .inr (.inr ⟨hxzero, hread.symm⟩)
  · rw [if_neg hxzero] at hread
    by_cases hyzero : y = negativeZero
    · rw [if_pos hyzero] at hread
      exact .inr (.inl ⟨hread, hyzero⟩)
    · rw [if_neg hyzero] at hread
      exact .inl hread

theorem shownExactly (x : Float) : ShownExactly x :=
  ⟨canonical?_shown, fun hx _ hy => beq_of_shown_eq hx hy⟩

/-- **Number texts are exact** in both directions: texts that are read, and numbers that are
shown. -/
theorem readExactly_and_shownExactly (cs : List Char) (x : Float) :
    ReadExactly cs ∧ ShownExactly x := ⟨readExactly cs, shownExactly x⟩

example : ["5.0", "+5", "1e3", "007", ".5", "NaN", "Infinity", "-0"].all
    (fun s => canonical? s.toList == none) = true := by
  decide +kernel

end Number

end OutlineLisp
