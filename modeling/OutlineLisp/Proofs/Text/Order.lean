import Mathlib
import OutlineLisp.Value.Primitive

/-!
# The order of texts

Texts are ordered character by character, and characters by their code points. The bytes that stand
for a text, read from the front, give the same order: characters that take more bytes have larger
first bytes, and among characters that take the same number of bytes the first difference decides.

## Main definitions

* `Text.Before`: the order of texts, by code points.
* `Text.BytesBefore`: the order of bytes.

## Main results

* `Text.lt_iff_before`: texts are compared by code points.
* `Text.lt_iff_bytesBefore`: which is the order of their bytes.
-/

namespace OutlineLisp

namespace Text

/-- The order of texts: the first character that differs decides, and a text comes before those that
go on after it. -/
def Before (cs ds : List Char) : Prop := List.Lex (fun c d => c.toNat < d.toNat) cs ds

/-- The order of bytes: the first byte that differs decides. -/
def BytesBefore (xs ys : List UInt8) : Prop := List.Lex (fun x y => x.toNat < y.toNat) xs ys

/-- **Texts are compared** by code points. -/
theorem lt_iff_before (s t : String) : s < t ↔ Before s.toList t.toList := Iff.rfl

/-- Of two texts that differ one comes before the other. -/
theorem before_or_before_of_ne {cs ds : List Char} (h : cs ≠ ds) : Before cs ds ∨ Before ds cs := by
  induction cs generalizing ds with
  | nil =>
    cases ds with
    | nil => exact absurd rfl h
    | cons d ds => exact .inl .nil
  | cons c cs ih =>
    cases ds with
    | nil => exact .inr .nil
    | cons d ds =>
      rcases Nat.lt_trichotomy c.toNat d.toNat with hlt | heq | hlt
      · exact .inl (.rel hlt)
      · obtain rfl := Char.toNat_inj.1 heq
        exact (ih fun heq => h (congrArg (c :: ·) heq)).imp .cons .cons
      · exact .inr (.rel hlt)

/-- A text comes before those that go on after it. -/
theorem before_append (cs : List Char) {ds : List Char} (h : ds ≠ []) : Before cs (cs ++ ds) := by
  have hnil : Before [] ds := by
    obtain ⟨d, ds, rfl⟩ := List.exists_cons_of_ne_nil h
    exact .nil
  rw [← List.append_nil cs, List.append_assoc]
  exact hnil.append_left _ cs

/-! ### The bytes of characters -/

/-- Whether bytes differ somewhere, and the first difference decides for the first ones. Then it
does not matter which bytes follow. -/
def DecidedBefore : List UInt8 → List UInt8 → Prop
  | x :: xs, y :: ys => x.toNat < y.toNat ∨ x.toNat = y.toNat ∧ DecidedBefore xs ys
  | _, _ => False

theorem DecidedBefore.append {xs ys : List UInt8} (h : DecidedBefore xs ys) (as bs : List UInt8) :
    BytesBefore (xs ++ as) (ys ++ bs) := by
  induction xs generalizing ys with
  | nil => exact h.elim
  | cons x xs ih =>
    cases ys with
    | nil => exact h.elim
    | cons y ys =>
      rcases h with hlt | ⟨heq, h⟩
      · exact .rel hlt
      · obtain rfl := UInt8.toNat_inj.1 heq
        exact .cons (ih h)

/-- Of two characters the bytes of the smaller one come first. -/
theorem decidedBefore_utf8EncodeChar {c d : Char} (h : c.toNat < d.toNat) :
    DecidedBefore (String.utf8EncodeChar c) (String.utf8EncodeChar d) := by
  have hd : d.toNat < 0x110000 := by
    rcases d.valid with hd | hd
    · exact Nat.lt_trans hd (by decide)
    · exact hd.2
  change c.val.toNat < d.val.toNat at h
  change d.val.toNat < _ at hd
  rw [String.utf8EncodeChar, String.utf8EncodeChar]
  -- The lengths differ, and then so do the first bytes; or some byte is the first to differ.
  split_ifs <;>
    simp (disch := omega) only [DecidedBefore, UInt8.toNat_ofNat', Nat.reducePow,
      Nat.mod_eq_of_lt] <;>
    omega

/-! ### The bytes of texts -/

theorem Before.bytesBefore {cs ds : List Char} (h : Before cs ds) :
    BytesBefore (cs.flatMap String.utf8EncodeChar) (ds.flatMap String.utf8EncodeChar) := by
  induction h with
  | @nil d ds =>
    rw [List.flatMap_nil, List.flatMap_cons]
    obtain ⟨y, ys, hbytes⟩ := List.exists_cons_of_ne_nil (String.utf8EncodeChar_ne_nil (c := d))
    rw [hbytes]
    exact .nil
  | rel hlt => exact (decidedBefore_utf8EncodeChar hlt).append _ _
  | cons _ ih => exact ih.append_left _ _

theorem bytesBefore_iff_before {cs ds : List Char} :
    BytesBefore (cs.flatMap String.utf8EncodeChar) (ds.flatMap String.utf8EncodeChar) ↔
      Before cs ds := by
  refine ⟨fun h => ?_, Before.bytesBefore⟩
  by_cases heq : cs = ds
  · subst heq
    exact absurd h (List.lex_irrefl (fun x : UInt8 => Nat.lt_irrefl x.toNat) _)
  · refine (before_or_before_of_ne heq).resolve_right fun hafter => ?_
    exact List.lex_asymm Nat.lt_asymm h hafter.bytesBefore

/-- The bytes of a text are those of its characters, one after another. -/
theorem toList_toUTF8 (s : String) :
    s.toUTF8.data.toList = s.toList.flatMap String.utf8EncodeChar := by
  rw [String.toUTF8_eq_toByteArray, ← String.utf8Encode_toList]
  exact List.toList_data_toByteArray

/-- **The bytes of texts** are ordered as the texts are. -/
theorem lt_iff_bytesBefore (s t : String) :
    s < t ↔ BytesBefore s.toUTF8.data.toList t.toUTF8.data.toList := by
  rw [toList_toUTF8, toList_toUTF8, bytesBefore_iff_before, lt_iff_before]

end Text

end OutlineLisp
