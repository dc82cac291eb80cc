import Mathlib
import OutlineLisp.Json.Basic
import OutlineLisp.Json.Token

/-!
# Quoted texts read back

Every character of a text stands for itself in the quoted form, by its letter, or by its code point
in hexadecimal digits. Each of these ways is read back as the one code unit that is the character's
code point; and since no character is half of a surrogate pair, the units join to the text again.

## Main results

* `Json.readUnits?_quoteChar_append`: one character.
* `Json.readUnits?_quote?`: a whole text, and also the one that stands for no text at all.
-/

namespace OutlineLisp

namespace Json

/-! ### One character -/

theorem hexValue?_hexDigit {n : Nat} (h : n < 16) : hexValue? (hexDigit n) = some n := by
  have hall : ∀ n < 16, hexValue? (hexDigit n) = some n := by decide
  exact hall n h

/-- Two hexadecimal digits write every control character. -/
theorem hexUnit?_hexDigit {n : Nat} (h : n < 256) :
    hexUnit? '0' '0' (hexDigit (n / 16)) (hexDigit (n % 16)) = some n := by
  have hzero : hexValue? '0' = some 0 := by decide
  have hhigh := hexValue?_hexDigit (n := n / 16) (by omega)
  have hlow := hexValue?_hexDigit (n := n % 16) (by omega)
  simp [hexUnit?, hzero, hhigh, hlow]
  omega

/-- A code unit in front of what is read after it. -/
def unitThen (u : Nat) (r : Option (List Nat × List Char)) : Option (List Nat × List Char) :=
  r.map fun p => (u :: p.1, p.2)

theorem readUnits?_escaped {e : Char} {u : Nat} (hu : e ≠ 'u') (he : escaped? e = some u)
    (cs : List Char) : readUnits? ('\\' :: e :: cs) = unitThen u (readUnits? cs) := by
  rw [readUnits?.eq_def]
  dsimp only
  rw [if_neg (by decide), if_pos rfl]
  split
  · next h =>
    cases h
    exact absurd rfl hu
  · next h =>
    cases h
    cases readUnits? cs <;> simp [he, unitThen]
  · next h => cases h

theorem readUnits?_hex {h₁ h₂ h₃ h₄ : Char} {u : Nat} (hu : hexUnit? h₁ h₂ h₃ h₄ = some u)
    (cs : List Char) :
    readUnits? ('\\' :: 'u' :: h₁ :: h₂ :: h₃ :: h₄ :: cs) = unitThen u (readUnits? cs) := by
  rw [readUnits?.eq_def]
  cases hcs : readUnits? cs <;> simp [hu, hcs, unitThen]

theorem readUnits?_closed (rest : List Char) : readUnits? ('\x22' :: rest) = some ([], rest) := by
  rw [readUnits?.eq_def]
  exact if_pos rfl

theorem readUnits?_plain {c : Char} (hquote : c ≠ '\x22') (hslash : c ≠ '\\')
    (hcontrol : ¬c.toNat < 0x20) (cs : List Char) :
    readUnits? (c :: cs) = unitThen c.toNat (readUnits? cs) := by
  rw [readUnits?.eq_def]
  cases hcs : readUnits? cs <;> simp [hquote, hslash, hcontrol, hcs, unitThen]

/-- **A quoted character reads back as its code point.** -/
theorem readUnits?_quoteChar_append (c : Char) (cs : List Char) :
    readUnits? (quoteChar c ++ cs) = unitThen c.toNat (readUnits? cs) := by
  rw [quoteChar]
  by_cases hself : c = '\x22' ∨ c = '\\'
  · rw [if_pos (by simpa using hself)]
    rcases hself with rfl | rfl <;> exact readUnits?_escaped (by decide) rfl cs
  · rw [if_neg (by simpa using hself)]
    split
    · next h => subst h; exact readUnits?_escaped (by decide) rfl cs
    split
    · next h => subst h; exact readUnits?_escaped (by decide) rfl cs
    split
    · next h => subst h; exact readUnits?_escaped (by decide) rfl cs
    split
    · next h => subst h; exact readUnits?_escaped (by decide) rfl cs
    split
    · next h => subst h; exact readUnits?_escaped (by decide) rfl cs
    split
    · next hcontrol => exact readUnits?_hex (hexUnit?_hexDigit (by omega)) cs
    · next hcontrol =>
      rw [not_or] at hself
      exact readUnits?_plain hself.1 hself.2 hcontrol cs

/-! ### Whole texts -/

theorem readUnits?_flatMap_quoteChar (cs rest : List Char) :
    readUnits? (cs.flatMap quoteChar ++ '\x22' :: rest) = some (cs.map Char.toNat, rest) := by
  induction cs with
  | nil => rw [List.flatMap_nil, List.nil_append, readUnits?_closed, List.map_nil]
  | cons c cs ih =>
    rw [List.flatMap_cons, List.append_assoc, readUnits?_quoteChar_append, ih]
    rfl

/-- No character is half of a surrogate pair. -/
theorem isLead_toNat (c : Char) : isLead c.toNat = false := by
  have hvalid : c.toNat < 0xD800 ∨ 0xDFFF < c.toNat ∧ c.toNat < 0x110000 := c.valid
  simp only [isLead, decide_eq_false_iff_not]
  omega

theorem isTrail_toNat (c : Char) : isTrail c.toNat = false := by
  have hvalid : c.toNat < 0xD800 ∨ 0xDFFF < c.toNat ∧ c.toNat < 0x110000 := c.valid
  simp only [isTrail, decide_eq_false_iff_not]
  omega

theorem joinUnits?_map_toNat (cs : List Char) : joinUnits? (cs.map Char.toNat) = some cs := by
  induction cs with
  | nil => rfl
  | cons c cs ih =>
    cases cs with
    | nil => simp [joinUnits?, isLead_toNat, isTrail_toNat]
    | cons d cs =>
      rw [List.map_cons, List.map_cons, joinUnits?, ← List.map_cons, ih]
      simp [isLead_toNat, isTrail_toNat]

/-- **A quoted text reads back,** and what stands for no text reads back as none. -/
theorem readUnits?_quote? (s : Option (List Char)) :
    ∃ body, quote? s = '\x22' :: body ∧
      ∀ rest, ∃ us, readUnits? (body ++ rest) = some (us, rest) ∧ joinUnits? us = s := by
  cases s with
  | some cs =>
    refine ⟨cs.flatMap quoteChar ++ ['\x22'], rfl, fun rest => ?_⟩
    refine ⟨cs.map Char.toNat, ?_, joinUnits?_map_toNat cs⟩
    rw [List.append_assoc]
    exact readUnits?_flatMap_quoteChar cs rest
  | none =>
    refine ⟨"\\ud800\"".toList, by decide, fun rest => ⟨[0xD800], ?_, by decide⟩⟩
    rw [show "\\ud800\"".toList ++ rest = '\\' :: 'u' :: 'd' :: '8' :: '0' :: '0' :: '\x22' :: rest
      from rfl, readUnits?_hex (u := 0xD800) (by decide), readUnits?_closed]
    rfl

end Json

end OutlineLisp
