import Mathlib
import OutlineLisp.Number.Binary64

/-!
# The patterns of binary64 numbers

A number is determined by its sign and the code of its magnitude, which are the parts of its
pattern. By the code it is also seen whether the number is finite.

## Main results

* `Binary64.isFinite_iff`: the finite numbers are those whose code is below that of infinity.
* `Binary64.ofCode_code`: a number is made from its sign and its code.
* `Binary64.isFinite_ofCode`: a sign and the code of a finite magnitude make a finite number.
-/

namespace OutlineLisp

namespace Binary64

open Float.Model UnpackedFloat

/-! ### Finite numbers -/

theorem toNat_unpackExponent (b : BitVec Format.binary64.numBits) :
    (unpackExponent b).toNat = b.toNat / 2 ^ 52 % 2 ^ 11 := by
  simp [unpackExponent, Nat.shiftRight_eq_div_pow]

theorem isFinite_unpack_iff (b : BitVec Format.binary64.numBits) :
    (UnpackedFloat.unpack Format.binary64 b).isFinite = true ↔ unpackExponent b ≠ -1#11 := by
  rw [UnpackedFloat.unpack]
  simp only []
  by_cases h : unpackExponent b = -1#11
  · rw [if_pos h]
    refine iff_of_false ?_ (not_not_intro h)
    split <;> exact Bool.false_ne_true
  · rw [if_neg h]
    refine iff_of_true ?_ h
    split
    · split <;> rfl
    · rfl

/-- **The finite numbers** are those whose code is below that of infinity. -/
theorem isFinite_iff (x : Float) : x.isFinite = true ↔ code x < infinity := by
  have hexp := toNat_unpackExponent x.toBits.toBitVec
  have hlt : x.toBits.toBitVec.toNat < 2 ^ 64 := x.toBits.toBitVec.isLt
  have hcode : code x = x.toBits.toBitVec.toNat % signBit := rfl
  have hnegOne : (-1#11 : BitVec 11).toNat = 2047 := rfl
  refine (isFinite_unpack_iff x.toBits.toBitVec).trans ?_
  rw [ne_eq, ← BitVec.toNat_inj, hexp, hnegOne, hcode, signBit_eq, infinity_eq, leadingBit_eq]
  omega

theorem ne_nan {x : Float} (h : x.isFinite = true) : x ≠ Float.nan := by
  rintro rfl
  cases h

theorem isNaN_eq_false {x : Float} (h : x.isFinite = true) : x.isNaN = false := by
  rw [Float.isNaN_eq_decide_eq_nan, decide_eq_false_iff_not]
  exact ne_nan h

/-! ### Signs and codes -/

/-- **A number is made from its sign and its code.** -/
theorem ofCode_code (x : Float) : ofCode (isNegative x) (code x) = x := by
  have hlt : x.toBits.toNat < 2 * signBit := x.toBits.toBitVec.isLt
  have hbits : (if isNegative x = true then signBit + code x else code x) = x.toBits.toNat := by
    rw [signBit_eq] at hlt
    by_cases hneg : signBit ≤ x.toBits.toNat
    · rw [isNegative, if_pos (decide_eq_true hneg), code]
      rw [signBit_eq] at hneg ⊢
      omega
    · have hpos : ¬isNegative x = true := by rw [isNegative, decide_eq_true_eq]; exact hneg
      rw [if_neg hpos, code]
      exact Nat.mod_eq_of_lt (Nat.not_le.1 hneg)
  rw [ofCode, hbits, UInt64.ofNat_toNat, Float.ofBits_toBits]

/-- A pattern is kept unless it is one of the many that stand for not-a-number. -/
theorem toBits_ofBits {b : UInt64} (h : @unpackExponent Format.binary64 b.toBitVec ≠ -1#11) :
    (Float.ofBits b).toBits = b :=
  congrArg Float.toBits (Float.ofBits_toBits ⟨⟨b, ⟨fun hexp => absurd hexp h⟩⟩⟩)

theorem code_ofCode (negative : Bool) {c : Nat} (h : c < infinity) :
    code (ofCode negative c) = c := by
  rw [infinity_eq, leadingBit_eq] at h
  have hlt : (if negative = true then signBit + c else c) < 2 ^ 64 := by
    rw [signBit_eq]
    split <;> omega
  have hnat : (UInt64.ofNat (if negative = true then signBit + c else c)).toBitVec.toNat
      = if negative = true then signBit + c else c := Nat.mod_eq_of_lt hlt
  have hnegOne : (-1#11 : BitVec 11).toNat = 2047 := rfl
  rw [code, ofCode, toBits_ofBits]
  · show BitVec.toNat _ % signBit = c
    rw [hnat, signBit_eq]
    split <;> omega
  · rw [ne_eq, ← BitVec.toNat_inj, toNat_unpackExponent, hnat, hnegOne, signBit_eq]
    split <;> omega

/-- **A sign and the code of a finite magnitude make a finite number.** -/
theorem isFinite_ofCode (negative : Bool) {c : Nat} (h : c < infinity) :
    (ofCode negative c).isFinite = true := by
  rw [isFinite_iff, code_ofCode negative h]
  exact h

end Binary64

end OutlineLisp
