import Mathlib
import OutlineLisp.Number.Binary64
import OutlineLisp.Proofs.Number.Pattern

/-!
# Comparing numbers

Numbers are compared as their codes are, the code of a negative number counting down. The two zeros
have one code and are equal; what is not a number has no place in the order and compares to nothing.

## Main definitions

* `Binary64.signed`: where a number stands in the order.
* `Binary64.Stands`: the parts of a number with a sign and a code.

## Main results

* `Binary64.isNaN_iff`: what is not a number has a code above that of infinity.
* `Binary64.lt_iff`, `Binary64.beq_iff`: numbers are compared by their codes.
* `Binary64.beq_comm`, `Binary64.beq_trans`, `Binary64.beq_self_iff`: equality of numbers.
-/

namespace OutlineLisp

namespace Binary64

open Float.Model UnpackedFloat

/-- A sign and a code as one integer. -/
def signedCode : Bool → ℕ → ℤ
  | false, code => code
  | true, code => -code

/-- Where a number stands in the order. -/
def signed (x : Float) : ℤ := signedCode (isNegative x) (code x)

theorem signedCode_zero (negative : Bool) : signedCode negative 0 = 0 := by
  cases negative <;> rfl

theorem signedCode_le (negative : Bool) (code : ℕ) : signedCode negative code ≤ code := by
  cases negative <;> simp only [signedCode] <;> omega

theorem neg_le_signedCode (negative : Bool) (code : ℕ) :
    -(code : ℤ) ≤ signedCode negative code := by
  cases negative <;> simp only [signedCode] <;> omega

/-! ### The parts of a number -/

/-- The sign of a number whose sign bit is set or not. -/
def signOf (negative : Bool) : Sign := if negative then .negative else .positive

/-- Whether a number in parts is the one with a sign and a code. -/
def Stands (negative : Bool) (code : ℕ) : UnpackedFloat → Prop
  | .infinity s => s = signOf negative ∧ code = infinity
  | .zero s => s = signOf negative ∧ code = 0
  | .finite s m e _ => s = signOf negative ∧ 0 < code ∧ code < infinity ∧
      m = significand code ∧ e = (doublings code : ℤ) - 1074
  | .notANumber => infinity < code

theorem toNat_unpackMantissa (b : BitVec Format.binary64.numBits) :
    (unpackMantissa b).toNat = b.toNat % 2 ^ 52 := by
  simp [unpackMantissa]

theorem toNat_unpackSign (b : BitVec Format.binary64.numBits) :
    (unpackSign b).toNat = b.toNat / 2 ^ 63 % 2 := by
  simp [unpackSign, Nat.shiftRight_eq_div_pow]

/-- The significand of a normal number has a leading bit, which its pattern does not store. -/
theorem toNat_append_unpackMantissa (b : BitVec Format.binary64.numBits) :
    ((1#1 : BitVec 1) ++ unpackMantissa b).toNat = leadingBit + b.toNat % 2 ^ 52 := by
  have hlt : b.toNat % 2 ^ 52 < 2 ^ 52 := Nat.mod_lt _ (by decide)
  rw [BitVec.toNat_append, toNat_unpackMantissa, ← Nat.shiftLeft_add_eq_or_of_lt hlt]
  rfl

theorem ofBitVec_unpackSign (b : BitVec Format.binary64.numBits) :
    Sign.ofBitVec (unpackSign b) = signOf (decide (signBit ≤ b.toNat)) := by
  have hlt : b.toNat < 2 ^ 64 := b.isLt
  have hzero : unpackSign b = 0#1 ↔ ¬signBit ≤ b.toNat := by
    rw [← BitVec.toNat_inj, toNat_unpackSign, signBit_eq]
    simp only [BitVec.toNat_ofNat]
    omega
  rw [Sign.ofBitVec, signOf]
  by_cases h : signBit ≤ b.toNat
  · rw [if_neg (mt hzero.1 (not_not_intro h)), if_pos (decide_eq_true h)]
  · rw [if_pos (hzero.2 h), if_neg (by simpa using h)]

/-- The parts of a pattern, by its sign bit and its code. -/
theorem stands_unpack (b : BitVec Format.binary64.numBits) :
    Stands (decide (signBit ≤ b.toNat)) (b.toNat % signBit)
      (UnpackedFloat.unpack Format.binary64 b) := by
  have hexp := toNat_unpackExponent b
  have hman := toNat_unpackMantissa b
  have hlt : b.toNat < 2 ^ 64 := b.isLt
  have hones : unpackExponent b = -1#11 ↔ b.toNat / 2 ^ 52 % 2 ^ 11 = 2047 := by
    rw [← BitVec.toNat_inj, hexp]
    rfl
  have hleast : unpackExponent b = 0#11 ↔ b.toNat / 2 ^ 52 % 2 ^ 11 = 0 := by
    rw [← BitVec.toNat_inj, hexp]
    rfl
  have hzero : unpackMantissa b = 0#52 ↔ b.toNat % 2 ^ 52 = 0 := by
    rw [← BitVec.toNat_inj, hman]
    rfl
  have hsign := ofBitVec_unpackSign b
  have hbias : (Format.binary64.exponentBias : ℤ) = 1023 := rfl
  rw [UnpackedFloat.unpack]
  simp only [hones, hleast, hzero, hexp, hbias]
  rw [signBit_eq] at *
  split
  · split
    · refine ⟨hsign, ?_⟩
      rw [infinity_eq, leadingBit_eq]
      omega
    · show infinity < _
      rw [infinity_eq, leadingBit_eq]
      omega
  · split
    · split
      · refine ⟨hsign, ?_⟩
        omega
      · refine ⟨hsign, ?_⟩
        rw [infinity_eq, significand, doublings, leadingBit_eq]
        simp only [hman]
        omega
    · refine ⟨hsign, ?_⟩
      rw [toNat_append_unpackMantissa]
      rw [infinity_eq, significand, doublings, leadingBit_eq]
      omega

/-- The parts of a number are those of its sign and its code. -/
theorem stands_toModel (x : Float) : Stands (isNegative x) (code x) x.toModel.unpack :=
  stands_unpack x.toModel.toBits.toBitVec

/-- **What is not a number** has a code above that of infinity. -/
theorem isNaN_iff (x : Float) : x.isNaN = true ↔ infinity < code x := by
  have h := stands_toModel x
  rw [Float.isNaN, Float.Model.isNaN]
  cases hx : x.toModel.unpack with
  | notANumber =>
    rw [hx] at h
    exact iff_of_true rfl h
  | infinity s =>
    rw [hx] at h
    exact iff_of_false Bool.false_ne_true (Nat.not_lt.2 (Nat.le_of_eq h.2))
  | zero s =>
    rw [hx] at h
    exact iff_of_false Bool.false_ne_true (by rw [h.2]; exact Nat.not_lt_zero _)
  | finite s m e hm =>
    rw [hx] at h
    exact iff_of_false Bool.false_ne_true (Nat.lt_asymm h.2.2.1)

/-! ### Comparing parts -/

/-- Magnitudes are compared by their doublings first, and then by their significands. -/
theorem compare_doublings_then (c c' : ℕ) :
    (compare ((doublings c : ℤ) - 1074) ((doublings c' : ℤ) - 1074)).then
      (compare (significand c) (significand c')) = compare (c : ℤ) c' := by
  have hlt {c c' : ℕ} (h : c < c') : (doublings c : ℤ) - 1074 < (doublings c' : ℤ) - 1074 ∨
      (doublings c : ℤ) - 1074 = (doublings c' : ℤ) - 1074 ∧ significand c < significand c' := by
    simp only [significand, doublings, leadingBit_eq]
    omega
  rcases Nat.lt_trichotomy c c' with h | rfl | h
  · rw [compare_lt_iff_lt.2 (Int.ofNat_lt.2 h), Ordering.then_eq_lt, compare_lt_iff_lt,
      compare_eq_iff_eq, compare_lt_iff_lt]
    exact hlt h
  · rw [compare_eq_iff_eq.2 rfl, compare_eq_iff_eq.2 rfl, compare_eq_iff_eq.2 rfl]
    rfl
  · rw [compare_gt_iff_gt.2 (Int.ofNat_lt.2 h), Ordering.then_eq_gt, compare_gt_iff_gt,
      compare_eq_iff_eq, compare_gt_iff_gt]
    exact (hlt h).imp_right fun h => ⟨h.1.symm, h.2⟩

theorem compare_neg_neg (a b : ℤ) : compare (-a) (-b) = (compare a b).swap := by
  rcases lt_trichotomy a b with h | rfl | h
  · rw [compare_lt_iff_lt.2 h, compare_gt_iff_gt.2 (neg_lt_neg h)]
    rfl
  · rw [compare_eq_iff_eq.2 rfl, compare_eq_iff_eq.2 rfl]
    rfl
  · rw [compare_gt_iff_gt.2 h, compare_lt_iff_lt.2 (neg_lt_neg h)]
    rfl

/-- **Parts are compared** as the signs and codes are that they stand for. -/
theorem compare_of_stands {negative negative' : Bool} {c c' : ℕ} {u v : UnpackedFloat}
    (hu : Stands negative c u) (hv : Stands negative' c' v) (hc : c ≤ infinity)
    (hc' : c' ≤ infinity) :
    u.compare v = some (compare (signedCode negative c) (signedCode negative' c')) := by
  have hlt {a b : ℤ} (h : a < b) : some Ordering.lt = some (compare a b) :=
    congrArg some (compare_lt_iff_lt.2 h).symm
  have hgt {a b : ℤ} (h : b < a) : some Ordering.gt = some (compare a b) :=
    congrArg some (compare_gt_iff_gt.2 h).symm
  -- Only two finite magnitudes of one sign need a look at their significands.
  cases u with
  | notANumber => exact absurd hu (Nat.not_lt.2 hc)
  | infinity s =>
    obtain ⟨rfl, rfl⟩ := hu
    cases v with
    | notANumber => exact absurd hv (Nat.not_lt.2 hc')
    | infinity s | zero s =>
      obtain ⟨rfl, rfl⟩ := hv
      cases negative <;> cases negative' <;> rfl
    | finite s m e hm =>
      obtain ⟨rfl, hpos, hfinite, -⟩ := hv
      cases negative with
      | false => exact hgt ((signedCode_le _ _).trans_lt (Int.ofNat_lt.2 hfinite))
      | true => exact hlt ((neg_lt_neg (Int.ofNat_lt.2 hfinite)).trans_le (neg_le_signedCode _ _))
  | zero s =>
    obtain ⟨rfl, rfl⟩ := hu
    cases v with
    | notANumber => exact absurd hv (Nat.not_lt.2 hc')
    | infinity s | zero s =>
      obtain ⟨rfl, rfl⟩ := hv
      cases negative <;> cases negative' <;> rfl
    | finite s m e hm =>
      obtain ⟨rfl, hpos, hfinite, -⟩ := hv
      cases negative' with
      | false => exact hlt ((signedCode_zero _).trans_lt (Int.ofNat_lt.2 hpos))
      | true => exact hgt ((neg_lt_zero.2 (Int.ofNat_lt.2 hpos)).trans_eq (signedCode_zero _).symm)
  | finite s m e hm =>
    obtain ⟨rfl, hpos, hfinite, rfl, rfl⟩ := hu
    cases v with
    | notANumber => exact absurd hv (Nat.not_lt.2 hc')
    | infinity s =>
      obtain ⟨rfl, rfl⟩ := hv
      cases negative' with
      | false => exact hlt ((signedCode_le _ _).trans_lt (Int.ofNat_lt.2 hfinite))
      | true => exact hgt ((neg_lt_neg (Int.ofNat_lt.2 hfinite)).trans_le (neg_le_signedCode _ _))
    | zero s =>
      obtain ⟨rfl, rfl⟩ := hv
      cases negative with
      | false => exact hgt ((signedCode_zero _).trans_lt (Int.ofNat_lt.2 hpos))
      | true => exact hlt ((neg_lt_zero.2 (Int.ofNat_lt.2 hpos)).trans_eq (signedCode_zero _).symm)
    | finite s m e hm =>
      obtain ⟨rfl, hpos', hfinite', rfl, rfl⟩ := hv
      have hcode := compare_doublings_then c c'
      cases negative <;> cases negative'
      · exact congrArg some hcode
      · exact hgt (by simp only [signedCode]; omega)
      · exact hlt (by simp only [signedCode]; omega)
      · exact congrArg some ((congrArg Ordering.swap hcode).trans (compare_neg_neg _ _).symm)

/-! ### Comparing numbers -/

/-- What is not a number compares to nothing, and numbers compare as they stand in the order. -/
theorem compare_unpack_eq_some_iff {x y : Float} {o : Ordering} :
    x.toModel.unpack.compare y.toModel.unpack = some o ↔
      x.isNaN = false ∧ y.isNaN = false ∧ compare (signed x) (signed y) = o := by
  have hcode {z : Float} (hz : z.isNaN = false) : code z ≤ infinity := by
    rw [← Bool.not_eq_true, isNaN_iff] at hz
    exact Nat.le_of_not_lt hz
  cases hx : x.isNaN with
  | true =>
    rw [Float.isNaN, Float.Model.isNaN] at hx
    generalize x.toModel.unpack = u at hx ⊢
    cases u with
    | notANumber => simp [UnpackedFloat.compare]
    | infinity | zero | finite => cases hx
  | false =>
    cases hy : y.isNaN with
    | true =>
      rw [Float.isNaN, Float.Model.isNaN] at hy
      generalize y.toModel.unpack = v at hy ⊢
      cases v with
      | notANumber => cases x.toModel.unpack <;> simp [UnpackedFloat.compare]
      | infinity | zero | finite => cases hy
    | false =>
      rw [compare_of_stands (stands_toModel x) (stands_toModel y) (hcode hx) (hcode hy),
        Option.some_inj]
      simp [signed]

/-- **Numbers are ordered** by their codes. -/
theorem lt_iff {x y : Float} :
    x < y ↔ x.isNaN = false ∧ y.isNaN = false ∧ signed x < signed y := by
  have h : x < y ↔ (x.toModel.unpack.compare y.toModel.unpack == some .lt) = true :=
    decide_eq_true_iff
  rw [h, beq_iff_eq, compare_unpack_eq_some_iff, compare_lt_iff_lt]

/-- **Numbers are equal** if their codes are. -/
theorem beq_iff {x y : Float} :
    (x == y) = true ↔ x.isNaN = false ∧ y.isNaN = false ∧ signed x = signed y := by
  have h : (x == y) = (x.toModel.unpack.compare y.toModel.unpack == some .eq) := rfl
  rw [h, beq_iff_eq, compare_unpack_eq_some_iff, compare_eq_iff_eq]

/-- Equal numbers can be exchanged. -/
theorem beq_comm (x y : Float) : (x == y) = (y == x) := by
  rw [Bool.eq_iff_iff, beq_iff, beq_iff]
  exact ⟨fun ⟨hx, hy, h⟩ => ⟨hy, hx, h.symm⟩, fun ⟨hy, hx, h⟩ => ⟨hx, hy, h.symm⟩⟩

theorem beq_trans {x y z : Float} (h : (x == y) = true) (h' : (y == z) = true) :
    (x == z) = true := by
  rw [beq_iff] at h h' ⊢
  exact ⟨h.1, h'.2.1, h.2.2.trans h'.2.2⟩

/-- A number is equal to itself, unless it is none. -/
theorem beq_self_iff (x : Float) : (x == x) = true ↔ x.isNaN = false := by
  rw [beq_iff]
  exact ⟨fun h => h.1, fun h => ⟨h, h, rfl⟩⟩

end Binary64

end OutlineLisp
