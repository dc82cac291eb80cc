import OutlineLisp.Proofs.Number.Order

/-!
# No shorter decimal reads back

The search for the shortest decimal looks at two points of every grid, and begins at a grid of its
own choice. It misses nothing by this. What lies between two decimals that read back as a magnitude
reads back as well, so if any point of a grid does, then one of the two next to the magnitude. And
above the first grid all points but zero are twice as great as the magnitude, or greater.

So the search stops at the coarsest grid with a point that reads back. A decimal with fewer digits
on a finer grid would leave room for a power of ten between itself and the decimal that was chosen,
and that power of ten lies on a coarser grid.

## Main results

* `Shortest.exists_pointOn_eq`: if any point of a grid reads back, the search finds one.
* `Shortest.le_firstGrid`: no point of a coarser grid than the first one reads back.
* `Shortest.digits_decimal_lt`: the chosen decimal has the fewest digits.
-/

namespace OutlineLisp

open Binary64 Decimal

/-! ### Powers of two and ten -/

theorem two_pow_le_ten_pow_of_le {a b : ℕ} (h : 28 * b ≤ 93 * a) : 2 ^ b ≤ 10 ^ a := by
  rw [← Nat.pow_le_pow_iff_left (n := 28) (by decide)]
  calc (2 ^ b) ^ 28 = 2 ^ (28 * b) := by rw [← Nat.pow_mul, Nat.mul_comm]
    _ ≤ 2 ^ (93 * a) := Nat.pow_le_pow_right (by decide) h
    _ = (2 ^ 93) ^ a := Nat.pow_mul 2 93 a
    _ ≤ (10 ^ 28) ^ a := Nat.pow_le_pow_left (by decide) a
    _ = (10 ^ a) ^ 28 := by rw [← Nat.pow_mul, Nat.mul_comm, Nat.pow_mul]

theorem ten_pow_le_two_pow_of_le {a b : ℕ} (h : 103 * a ≤ 31 * b) : 10 ^ a ≤ 2 ^ b := by
  rw [← Nat.pow_le_pow_iff_left (n := 31) (by decide)]
  calc (10 ^ a) ^ 31 = (10 ^ 31) ^ a := by rw [← Nat.pow_mul, Nat.mul_comm, Nat.pow_mul]
    _ ≤ (2 ^ 103) ^ a := Nat.pow_le_pow_left (by decide) a
    _ = 2 ^ (103 * a) := (Nat.pow_mul 2 103 a).symm
    _ ≤ 2 ^ (31 * b) := Nat.pow_le_pow_right (by decide) h
    _ = (2 ^ b) ^ 31 := by rw [← Nat.pow_mul, Nat.mul_comm]

namespace Binary64

/-! ### Twice a magnitude -/

variable {code : ℕ}

theorem significand_pos (h : 0 < code) : 0 < significand code := by
  rw [significand, doublings, leadingBit_eq]
  omega

/-- The next code has the next significand, or else one that is doubled once more. -/
theorem significand_succ (code : ℕ) :
    (doublings (code + 1) = doublings code ∧ significand (code + 1) = significand code + 1) ∨
      (doublings (code + 1) = doublings code + 1 ∧ significand (code + 1) ≤ significand code) := by
  simp only [significand, doublings, leadingBit_eq]
  omega

/-- A magnitude is at least half as great as the next one. -/
theorem units_succ_le (h : 0 < code) : units (code + 1) ≤ 2 * units code := by
  have hpos := significand_pos h
  rw [units, units, Nat.shiftLeft_eq, Nat.shiftLeft_eq]
  rcases significand_succ code with ⟨hd, hs⟩ | ⟨hd, hs⟩
  · rw [hd, hs, ← Nat.mul_assoc]
    exact Nat.mul_le_mul_right _ (by omega)
  · rw [hd, Nat.pow_succ, Nat.mul_left_comm 2, Nat.mul_comm 2]
    exact Nat.mul_le_mul_right _ hs

theorem lt_nearest_two_mul (hpos : 0 < code) (h : code < infinity) :
    code < nearest (2 * units code) unitsPerOne := by
  calc code < code + 1 := Nat.lt_succ_self code
    _ = nearest (units (code + 1)) unitsPerOne := (nearest_units h).symm
    _ ≤ nearest (2 * units code) unitsPerOne := nearest_mono (units_succ_le hpos)

theorem log2_units_lt (hpos : 0 < code) (h : code < infinity) : (units code).log2 < 2100 := by
  have hd : 53 + doublings code ≤ 2100 := by
    rw [infinity_eq, leadingBit_eq] at h
    rw [doublings, leadingBit_eq]
    omega
  have hunits : units code ≠ 0 := by
    rw [units, Nat.shiftLeft_eq]
    exact Nat.mul_ne_zero (significand_pos hpos).ne' (Nat.two_pow_pos _).ne'
  rw [Nat.log2_lt hunits]
  calc units code < 2 ^ 53 * 2 ^ doublings code := by
        rw [units, Nat.shiftLeft_eq]
        exact Nat.mul_lt_mul_of_pos_right (significand_lt code) (Nat.two_pow_pos _)
    _ = 2 ^ (53 + doublings code) := (Nat.pow_add 2 53 _).symm
    _ ≤ 2 ^ 2100 := Nat.pow_le_pow_right (by decide) hd

end Binary64

namespace Shortest

variable (tie : Tie) {code n : ℕ} {j : ℤ}

/-! ### Points of a grid -/

theorem onGrid_snd_pos (code : ℕ) (j : ℤ) : 0 < (onGrid code j).2 := by
  rw [onGrid]
  split
  · exact Nat.mul_pos unitsPerOne_pos (Nat.pow_pos (by decide))
  · exact unitsPerOne_pos

/-- Counted on a grid, a magnitude and the points of the grid are quotients with one
denominator. -/
theorem exists_nearest_eq (h : code ≤ infinity) (j : ℤ) :
    ∃ k den, nearest ((onGrid code j).1 * k) den = code ∧
      ∀ n, nearest (n * (onGrid code j).2 * k) den = scaledCode n j := by
  have hten (i : ℕ) : 0 < 10 ^ i := Nat.pow_pos (by decide)
  rw [onGrid]
  split
  · next hj =>
    refine ⟨10 ^ j.toNat, 10 ^ j.toNat * unitsPerOne, ?_, fun n => ?_⟩
    · rw [Nat.mul_comm, nearest_mul_mul (hten _), nearest_units h]
    · rw [scaledCode_eq, if_pos hj,
        ← nearest_mul_mul (Nat.mul_pos (hten j.toNat) unitsPerOne_pos) (n * 10 ^ j.toNat) 1]
      congr 1
      · simp only [Nat.pow_eq]
        ac_rfl
      · rw [Nat.mul_one]
  · next hj =>
    refine ⟨1, unitsPerOne * 10 ^ (-j).toNat, ?_, fun n => ?_⟩
    · rw [Nat.mul_one, Nat.mul_comm, Nat.mul_comm unitsPerOne]
      exact (nearest_mul_mul (hten _) _ _).trans (nearest_units h)
    · rw [scaledCode_eq, if_neg hj, Nat.mul_one, Nat.mul_comm n,
        nearest_mul_mul unitsPerOne_pos]

/-- A point of a grid below a magnitude does not round to a greater one. -/
theorem scaledCode_le (h : code ≤ infinity) (hn : n * (onGrid code j).2 ≤ (onGrid code j).1) :
    scaledCode n j ≤ code := by
  obtain ⟨num, den, hcode, hpoint⟩ := exists_nearest_eq h j
  calc scaledCode n j = nearest (n * (onGrid code j).2 * num) den := (hpoint n).symm
    _ ≤ nearest ((onGrid code j).1 * num) den := nearest_mono (Nat.mul_le_mul_right num hn)
    _ = code := hcode

/-- A point above it does not round to a smaller one. -/
theorem le_scaledCode (h : code ≤ infinity) (hn : (onGrid code j).1 ≤ n * (onGrid code j).2) :
    code ≤ scaledCode n j := by
  obtain ⟨num, den, hcode, hpoint⟩ := exists_nearest_eq h j
  calc code = nearest ((onGrid code j).1 * num) den := hcode.symm
    _ ≤ nearest (n * (onGrid code j).2 * num) den := nearest_mono (Nat.mul_le_mul_right num hn)
    _ = scaledCode n j := hpoint n

/-- **If any point of a grid reads back,** the search finds one. -/
theorem exists_pointOn_eq (h : code ≤ infinity) (hn : scaledCode n j = code) :
    ∃ digits, pointOn tie code j = some digits := by
  have hden := onGrid_snd_pos code j
  have hfound : readsBack code j ((onGrid code j).1 / (onGrid code j).2) = true
      ∨ readsBack code j ((onGrid code j).1 / (onGrid code j).2 + 1) = true := by
    rcases Nat.lt_or_ge ((onGrid code j).1 / (onGrid code j).2) n with habove | hbelow
    · right
      rw [readsBack, beq_iff_eq]
      refine Nat.le_antisymm ((scaledCode_mono habove j).trans_eq hn) (le_scaledCode h ?_)
      exact (Nat.lt_mul_of_div_lt (Nat.lt_succ_self _) hden).le
    · left
      rw [readsBack, beq_iff_eq]
      refine Nat.le_antisymm (scaledCode_le h (Nat.div_mul_le_self _ _)) ?_
      exact hn.symm.trans_le (scaledCode_mono hbelow j)
  rw [pointOn]
  dsimp only
  split
  · next hneither hnor => simp [hneither, hnor] at hfound
  · exact ⟨_, rfl⟩
  · exact ⟨_, rfl⟩
  · exact ⟨_, rfl⟩

/-! ### Coarse grids -/

/-- Above the first grid, every point but zero is twice as great as the magnitude, or greater. -/
theorem nearest_two_mul_le (hpos : 0 < code) (h : code < infinity)
    (hj : firstGrid code - finest < j) :
    nearest (2 * units code) unitsPerOne ≤ scaledCode 1 j := by
  have hlog := log2_units_lt hpos h
  have hunits : 2 * units code ≤ 2 ^ ((units code).log2 + 2) := by
    rw [Nat.pow_succ, Nat.mul_comm]
    exact Nat.mul_le_mul_right 2 Nat.lt_log2_self.le
  -- the power is too great to be evaluated
  obtain ⟨k, hk, hone⟩ : ∃ k, k = 1074 ∧ unitsPerOne = 1 <<< k := ⟨1074, rfl, rfl⟩
  have hfinest : (finest : ℤ) = 1074 := rfl
  rw [Nat.one_shiftLeft] at hone
  rw [firstGrid] at hj
  generalize (units code).log2 = l at hj hlog hunits
  rw [scaledCode_eq]
  split
  · next hnonneg =>
    refine nearest_le_nearest unitsPerOne_pos Nat.one_pos ?_
    rw [Nat.mul_one, Nat.one_mul, hone]
    calc 2 * units code ≤ 2 ^ (l + 2) := hunits
      _ ≤ 2 ^ (l + 2 - k + k) := Nat.pow_le_pow_right (by decide) (by omega)
      _ = 2 ^ (l + 2 - k) * 2 ^ k := Nat.pow_add 2 _ _
      _ ≤ 10 ^ j.toNat * 2 ^ k := Nat.mul_le_mul_right _ (two_pow_le_ten_pow_of_le (by omega))
  · next hneg =>
    refine nearest_le_nearest unitsPerOne_pos (Nat.pow_pos (by decide)) ?_
    rw [Nat.one_mul, hone]
    calc 2 * units code * 10 ^ (-j).toNat ≤ 2 ^ (l + 2) * 2 ^ (k - (l + 2)) :=
          Nat.mul_le_mul hunits (ten_pow_le_two_pow_of_le (by omega))
      _ = 2 ^ (l + 2 + (k - (l + 2))) := (Nat.pow_add 2 _ _).symm
      _ = 2 ^ k := by rw [Nat.add_sub_of_le (by omega)]

/-- **Above the first grid** no point reads back. -/
theorem le_firstGrid (hpos : 0 < code) (h : code < infinity) (hn : scaledCode n j = code) :
    j ≤ firstGrid code - finest := by
  by_contra habove
  have hne : 1 ≤ n := by
    refine Nat.pos_of_ne_zero ?_
    rintro rfl
    rw [scaledCode_zero] at hn
    omega
  have hle : nearest (2 * units code) unitsPerOne ≤ code :=
    calc nearest (2 * units code) unitsPerOne ≤ scaledCode 1 j :=
          nearest_two_mul_le hpos h (Int.not_le.1 habove)
      _ ≤ scaledCode n j := scaledCode_mono hne j
      _ = code := hn
  exact absurd (lt_nearest_two_mul hpos h) (Nat.not_lt.2 hle)

/-- The search stops at a grid that is as coarse as any with a point that reads back. -/
theorem le_exponent_search (h : code ≤ infinity) (hn : scaledCode n j = code) {first : ℕ}
    (hj : j ≤ first - finest) : j ≤ (search tie code first).exponent := by
  induction first with
  | zero => exact hj
  | succ first ih =>
    rw [search]
    split
    · exact hj
    · next hnone =>
      refine ih ?_
      have hne : j ≠ (first : ℤ) + 1 - finest := by
        rintro rfl
        obtain ⟨digits, hdigits⟩ := exists_pointOn_eq tie h hn
        rw [hdigits] at hnone
        cases hnone
      omega

theorem le_exponent_decimal (hpos : 0 < code) (h : code < infinity) (hn : scaledCode n j = code) :
    j ≤ (decimal tie code).exponent :=
  le_exponent_search tie h.le hn (le_firstGrid hpos h hn)

/-- **The chosen decimal has the fewest digits** of all that read back. -/
theorem digits_decimal_lt (hpos : 0 < code) (h : code < infinity) (hn : scaledCode n j = code)
    {p : ℕ} (hp : n < 10 ^ p) : (decimal tie code).digits < 10 ^ p := by
  have hread := scaledCode_decimal tie h.le
  have hj := le_exponent_decimal tie hpos h hn
  have hcoarse (i : ℤ) (hi : scaledCode 1 i = code) := le_exponent_decimal tie hpos h hi
  generalize decimal tie code = d at hread hj hcoarse ⊢
  by_contra hlong
  rw [Nat.not_lt] at hlong
  -- then this power of ten is between the two, and reads back as well
  have hpower : scaledCode 1 (d.exponent + p) = code := by
    refine Nat.le_antisymm ?_ ?_
    · calc scaledCode 1 (d.exponent + p) = scaledCode (10 ^ p) d.exponent :=
            (scaledCode_ten_pow p _).symm
        _ ≤ scaledCode d.digits d.exponent := scaledCode_mono hlong _
        _ = code := hread
    · calc code = scaledCode n j := hn.symm
        _ ≤ scaledCode (10 ^ p) j := scaledCode_mono hp.le j
        _ = scaledCode 1 (j + p) := scaledCode_ten_pow p j
        _ ≤ scaledCode 1 (d.exponent + p) := scaledCode_one_mono (by omega)
  have hexponent := hcoarse _ hpower
  have hzero : p = 0 := by omega
  rw [hzero, Nat.pow_zero, Nat.lt_one_iff] at hp
  rw [hp, scaledCode_zero] at hn
  omega

end Shortest

end OutlineLisp
