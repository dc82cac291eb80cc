import OutlineLisp.Proofs.Number.Spelling

/-!
# Significant digits

How long a numeral is does not depend on where its point stands, nor on zeros at its ends: these
only say how great the number is. What counts are the digits in between, and there are at most `p`
of them exactly if the run of all digits is a number below `10 ^ p`, up to a power of ten.

## Main definitions

* `Numeral.significant`: the digits of a numeral without the zeros at both ends.

## Main results

* `Numeral.length_significant_le_iff`: how many digits are significant.
-/

namespace OutlineLisp

namespace Numeral

variable {cs : List Char}

/-! ### Runs of digits -/

theorem ofDigits_concat (cs : List Char) (c : Char) :
    ofDigits (cs ++ [c]) = 10 * ofDigits cs + (c.toNat - '0'.toNat) := by
  rw [ofDigits, Nat.ofDigitChars_append, Nat.ofDigitChars_cons, Nat.ofDigitChars_nil, ofDigits]

/-- The value of a digit. -/
theorem toNat_sub_of_isDigit {c : Char} (h : c.isDigit = true) :
    c.toNat - '0'.toNat < 10 ∧ (c.toNat - '0'.toNat = 0 → c = '0') := by
  obtain ⟨hge, hle⟩ := toNat_of_isDigit h
  have hzero : '0'.toNat = 48 := rfl
  refine ⟨by omega, fun h => ?_⟩
  rw [← Char.toNat_inj]
  omega

theorem ofDigits_lt (h : ∀ c ∈ cs, c.isDigit = true) : ofDigits cs < 10 ^ cs.length := by
  induction cs using List.reverseRecOn with
  | nil => decide
  | append_singleton cs c ih =>
    have hcs := ih fun d hd => h d (List.mem_append_left _ hd)
    have hc := (toNat_sub_of_isDigit (h c (List.mem_append_right _ (List.mem_singleton_self c)))).1
    rw [ofDigits_concat, List.length_append, List.length_singleton, Nat.pow_succ]
    omega

/-- A run that does not begin with a zero is as great as its length says. -/
theorem pow_le_ofDigits_cons {c : Char} (hc : c.isDigit = true) (hzero : c ≠ '0') (cs : List Char) :
    10 ^ cs.length ≤ ofDigits (c :: cs) := by
  induction cs using List.reverseRecOn with
  | nil =>
    have hvalue := (toNat_sub_of_isDigit hc).2
    have hone : c.toNat - '0'.toNat ≠ 0 := fun h => hzero (hvalue h)
    rw [← List.nil_append [c], ofDigits_concat]
    exact Nat.one_le_iff_ne_zero.2 (by omega)
  | append_singleton cs d ih =>
    rw [← List.cons_append, ofDigits_concat, List.length_append, List.length_singleton,
      Nat.pow_succ]
    omega

/-- A run that does not end in a zero is no multiple of ten. -/
theorem not_ten_dvd_ofDigits_concat {c : Char} (hc : c.isDigit = true) (hzero : c ≠ '0')
    (cs : List Char) : ¬10 ∣ ofDigits (cs ++ [c]) := by
  obtain ⟨hlt, hvalue⟩ := toNat_sub_of_isDigit hc
  have hone : c.toNat - '0'.toNat ≠ 0 := fun h => hzero (hvalue h)
  rw [ofDigits_concat]
  omega

/-! ### Significant digits -/

/-- The digits of a numeral without the zeros at both ends. -/
def significant (n : Numeral) : List Char :=
  ((n.whole ++ n.places).dropWhile (· = '0')).rdropWhile (· = '0')

variable {n : Numeral}

/-- The zeros at the ends only count as a power of ten. -/
theorem exists_ofDigits_eq (n : Numeral) :
    ∃ k, ofDigits (n.whole ++ n.places) = ofDigits n.significant * 10 ^ k := by
  rw [significant]
  generalize n.whole ++ n.places = cs
  have hfront : ofDigits cs = ofDigits (cs.dropWhile (· = '0')) := by
    have hzeros : cs.takeWhile (· = '0') = List.replicate _ '0' :=
      List.eq_replicate_of_mem fun c hc => by simpa using List.mem_takeWhile_imp hc
    conv_lhs => rw [← List.takeWhile_append_dropWhile (p := (· = '0')) (l := cs)]
    rw [hzeros, ofDigits_replicate_append]
  rw [hfront]
  generalize cs.dropWhile (· = '0') = ds
  have hzeros : ds.rtakeWhile (· = '0') = List.replicate _ '0' :=
    List.eq_replicate_of_mem fun c hc => by simpa using List.mem_rtakeWhile_imp hc
  refine ⟨(ds.rtakeWhile (· = '0')).length, ?_⟩
  rw [← ofDigits_append_replicate, ← hzeros, List.rdropWhile_append_rtakeWhile]

theorem significant_subset (n : Numeral) : n.significant ⊆ n.whole ++ n.places := fun _ h =>
  List.dropWhile_subset _ ((List.rdropWhile_prefix _ _).subset h)

/-- The significant digits write a number that is as great as their count says, and that is no
multiple of ten. -/
theorem pow_le_ofDigits_significant (h : ∀ c ∈ n.whole ++ n.places, c.isDigit = true)
    (hne : n.significant ≠ []) :
    10 ^ (n.significant.length - 1) ≤ ofDigits n.significant ∧ ¬10 ∣ ofDigits n.significant := by
  have hdigit : ∀ c ∈ n.significant, c.isDigit = true := fun c hc => h c (n.significant_subset hc)
  constructor
  · obtain ⟨c, cs, hcons⟩ := List.exists_cons_of_ne_nil hne
    have hzero : c ≠ '0' := by
      obtain ⟨ds, hds⟩ := List.rdropWhile_prefix (· = '0')
        ((n.whole ++ n.places).dropWhile (· = '0'))
      rw [← significant, hcons] at hds
      have hstops := stops_dropWhile (· = '0') (n.whole ++ n.places) c (by rw [← hds]; rfl)
      exact of_decide_eq_false hstops
    rw [hcons] at hdigit ⊢
    exact pow_le_ofDigits_cons (hdigit c List.mem_cons_self) hzero cs
  · have hlast := List.rdropWhile_last_not _ _ hne
    rw [← List.dropLast_append_getLast hne]
    exact not_ten_dvd_ofDigits_concat (hdigit _ (List.getLast_mem hne))
      (fun hzero => hlast (decide_eq_true hzero)) _

/-- **How many digits are significant:** at most `p` if the digits write a number below `10 ^ p`, up
to a power of ten. -/
theorem length_significant_le_iff (h : ∀ c ∈ n.whole ++ n.places, c.isDigit = true) {p : ℕ} :
    n.significant.length ≤ p ↔
      ∃ m k, m < 10 ^ p ∧ ofDigits (n.whole ++ n.places) = m * 10 ^ k := by
  have hpos (k : ℕ) : 0 < 10 ^ k := Nat.pow_pos (by decide)
  obtain ⟨i, hi⟩ := exists_ofDigits_eq n
  constructor
  · intro hle
    refine ⟨ofDigits n.significant, i, ?_, hi⟩
    exact (ofDigits_lt fun c hc => h c (n.significant_subset hc)).trans_le
      (Nat.pow_le_pow_right (by decide) hle)
  · rintro ⟨m, k, hm, hk⟩
    by_cases hne : n.significant = []
    · rw [hne]
      exact Nat.zero_le p
    · obtain ⟨hgreat, hten⟩ := pow_le_ofDigits_significant h hne
      rw [hi] at hk
      have hki : k ≤ i := by
        by_contra hlt
        obtain ⟨d, rfl⟩ := Nat.exists_eq_add_of_lt (Nat.not_le.1 hlt)
        have hsplit : i + d + 1 = (d + 1) + i := by omega
        rw [hsplit, Nat.pow_add, ← Nat.mul_assoc] at hk
        refine hten ⟨m * 10 ^ d, ?_⟩
        rw [Nat.eq_of_mul_eq_mul_right (hpos i) hk, Nat.pow_succ]
        ac_rfl
      obtain ⟨d, rfl⟩ := Nat.exists_eq_add_of_le' hki
      rw [Nat.pow_add, ← Nat.mul_assoc] at hk
      have hvalue : ofDigits n.significant * 10 ^ d = m := Nat.eq_of_mul_eq_mul_right (hpos k) hk
      have hlt : 10 ^ (n.significant.length - 1) < 10 ^ p :=
        calc 10 ^ (n.significant.length - 1) ≤ ofDigits n.significant := hgreat
          _ ≤ ofDigits n.significant * 10 ^ d := Nat.le_mul_of_pos_right _ (hpos d)
          _ = m := hvalue
          _ < 10 ^ p := hm
      have hlength := (Nat.pow_lt_pow_iff_right (by decide)).1 hlt
      omega

end Numeral

end OutlineLisp
