import Mathlib
import OutlineLisp.Number.Text
import OutlineLisp.Proofs.Runs

/-!
# How written numbers read back

Whatever form a style chooses for the digits of a number, the text is a *spelling*: digits, perhaps
a point and further digits, and perhaps an exponent. A spelling is a numeral with just these parts,
since what follows a run of digits is never a digit. In value a spelling may differ from the digits
that it was made of by zeros at the end, which stand for a power of ten in the exponent.

## Main definitions

* `Spelling`, `Spelling.text`: the parts of a written magnitude, and its text.

## Main results

* `Spelling.ofUnsigned?_text`: a spelling reads back as its parts.
* `NumberStyle.exists_spelling`: every layout of digits is a spelling of them.
* `Number.ofText?_append_text`: the number that a spelling with a sign denotes.
-/

namespace OutlineLisp

/-! ### Digits -/

namespace Numeral

theorem toNat_of_isDigit {c : Char} (h : c.isDigit = true) : 48 ≤ c.toNat ∧ c.toNat ≤ 57 := by
  simp only [Char.isDigit, Bool.and_eq_true, decide_eq_true_eq] at h
  exact h

theorem isDigits_of_forall {cs : List Char} (hne : cs ≠ []) (h : ∀ c ∈ cs, c.isDigit = true) :
    isDigits cs = true := by
  rw [isDigits, List.all_eq_true.2 h, Bool.and_true, Bool.not_eq_true', List.isEmpty_eq_false_iff]
  exact hne

theorem ofDigits_append_replicate (ds : List Char) (k : Nat) :
    ofDigits (ds ++ List.replicate k '0') = ofDigits ds * 10 ^ k := by
  rw [ofDigits, ofDigits, Nat.ofDigitChars_append, Nat.ofDigitChars_replicate_zero, Nat.mul_comm]

theorem ofDigits_replicate_append (k : Nat) (ds : List Char) :
    ofDigits (List.replicate k '0' ++ ds) = ofDigits ds := by
  rw [ofDigits, ofDigits, Nat.ofDigitChars_append, Nat.ofDigitChars_replicate_zero, Nat.mul_zero]

end Numeral

namespace NumberStyle

theorem isDigit_of_mem_digitsOf {n : Nat} {c : Char} (h : c ∈ digitsOf n) : c.isDigit = true :=
  Nat.isDigit_of_mem_toDigits (by decide) (by decide) h

theorem digitsOf_ne_nil (n : Nat) : digitsOf n ≠ [] := Nat.toDigits_ne_nil

theorem ofDigits_digitsOf (n : Nat) : Numeral.ofDigits (digitsOf n) = n :=
  Nat.ofDigitChars_ten_toDigits

theorem isDigits_digitsOf (n : Nat) : Numeral.isDigits (digitsOf n) = true :=
  Numeral.isDigits_of_forall (digitsOf_ne_nil n) fun _ h => isDigit_of_mem_digitsOf h

end NumberStyle

/-! ### Spellings -/

/-- The parts of a written magnitude. -/
structure Spelling where
  whole : List Char
  places : List Char
  exponent : Option Int
  whole_ne_nil : whole ≠ []
  isDigit_whole : ∀ c ∈ whole, c.isDigit = true
  isDigit_places : ∀ c ∈ places, c.isDigit = true

namespace Spelling

/-- The text of an exponent, which may be absent. -/
def exponentText : Option Int → List Char
  | none => []
  | some e => 'e' :: NumberStyle.signed e

/-- The text of digits after a point. If there are none, the point is left out. -/
def placesText (places : List Char) : List Char := if places = [] then [] else '.' :: places

/-- The text of a written magnitude. -/
def text (s : Spelling) : List Char := s.whole ++ (placesText s.places ++ exponentText s.exponent)

theorem stops_exponentText (e : Option Int) : Stops Char.isDigit (exponentText e) := by
  cases e with
  | none => intro c hc; cases hc
  | some e => exact stops_cons (by decide) _

theorem exponent?_exponentText (e : Option Int) :
    Numeral.exponent? (exponentText e) = some (e.getD 0) := by
  cases e with
  | none => rfl
  | some e =>
    rw [exponentText, Numeral.exponent?, if_pos (.inl rfl), NumberStyle.signed]
    by_cases h : e < 0
    · rw [if_pos h, Numeral.signedExponent?, if_pos (NumberStyle.isDigits_digitsOf _),
        NumberStyle.ofDigits_digitsOf]
      congr 1
      show -((e.natAbs : Nat) : Int) = e
      omega
    · rw [if_neg h, Numeral.signedExponent?, if_pos (NumberStyle.isDigits_digitsOf _),
        NumberStyle.ofDigits_digitsOf]
      congr 1
      show ((e.natAbs : Nat) : Int) = e
      omega

theorem fraction_placesText {places : List Char} (hp : ∀ c ∈ places, c.isDigit = true)
    (e : Option Int) :
    Numeral.fraction (placesText places ++ exponentText e) = (places, exponentText e) := by
  rw [placesText]
  by_cases h : places = []
  · rw [if_pos h, h]
    cases e <;> rfl
  · rw [if_neg h, List.cons_append, Numeral.fraction,
      takeWhile_append_eq hp (stops_exponentText e), dropWhile_append_eq hp (stops_exponentText e)]

/-- **A spelling reads back as its parts.** -/
theorem ofUnsigned?_text (negative : Bool) (s : Spelling) :
    Numeral.ofUnsigned? negative s.text
      = some ⟨negative, s.whole, s.places, s.exponent.getD 0⟩ := by
  have hstops : Stops Char.isDigit (placesText s.places ++ exponentText s.exponent) := by
    rw [placesText]
    split
    · exact stops_exponentText _
    · exact stops_cons (by decide) _
  have hwhole : s.whole.isEmpty = false := List.isEmpty_eq_false_iff.2 s.whole_ne_nil
  rw [Numeral.ofUnsigned?, text, takeWhile_append_eq s.isDigit_whole hstops,
    dropWhile_append_eq s.isDigit_whole hstops, fraction_placesText s.isDigit_places]
  simp only [hwhole, Bool.false_and, exponent?_exponentText]
  rfl

/-! ### The characters of a spelling -/

/-- The characters that written numbers are made of. -/
def IsNumberChar (c : Char) : Prop := c.isDigit = true ∨ c ∈ ['.', 'e', '+', '-']

instance : DecidablePred IsNumberChar := fun c =>
  inferInstanceAs (Decidable (c.isDigit = true ∨ c ∈ ['.', 'e', '+', '-']))

theorem isNumberChar_of_mem_exponentText {e : Option Int} {c : Char} (h : c ∈ exponentText e) :
    IsNumberChar c := by
  cases e with
  | none => cases h
  | some e =>
    rw [exponentText, NumberStyle.signed] at h
    rcases List.mem_cons.1 h with rfl | h
    · exact .inr (by decide)
    · rcases List.mem_cons.1 h with rfl | h
      · split <;> exact .inr (by decide)
      · exact .inl (NumberStyle.isDigit_of_mem_digitsOf h)

theorem isNumberChar_of_mem_text {s : Spelling} {c : Char} (h : c ∈ s.text) : IsNumberChar c := by
  rcases List.mem_append.1 h with h | h
  · exact .inl (s.isDigit_whole c h)
  · rcases List.mem_append.1 h with h | h
    · rw [placesText] at h
      split at h
      · cases h
      · rcases List.mem_cons.1 h with rfl | h
        · exact .inr (by decide)
        · exact .inl (s.isDigit_places c h)
    · exact isNumberChar_of_mem_exponentText h

/-- A spelling begins with a digit. -/
theorem exists_text_eq_cons (s : Spelling) :
    ∃ c cs, s.text = c :: cs ∧ c.isDigit = true := by
  obtain ⟨c, cs, h⟩ := List.exists_cons_of_ne_nil s.whole_ne_nil
  refine ⟨c, cs ++ _, by rw [text, h, List.cons_append], s.isDigit_whole c ?_⟩
  rw [h]
  exact List.mem_cons_self

/-- A spelling writes `n * 10 ^ j`, with `n` as its digits up to zeros at the end. -/
def Writes (s : Spelling) (n : Nat) (j : Int) : Prop :=
  ∃ k : Nat, Numeral.ofDigits (s.whole ++ s.places) = n * 10 ^ k ∧
    s.exponent.getD 0 - s.places.length = j - k

end Spelling

/-! ### Layouts -/

namespace NumberStyle

variable {style : NumberStyle} {digits : List Char}

theorem exists_spelling_exponential (hne : digits ≠ []) (hd : ∀ c ∈ digits, c.isDigit = true)
    (e : Int) : ∃ s : Spelling, s.text = exponential digits e ∧
      s.Writes (Numeral.ofDigits digits) (e + 1 - digits.length) := by
  obtain ⟨d, ds, rfl⟩ := List.exists_cons_of_ne_nil hne
  refine ⟨⟨[d], ds, some e, List.cons_ne_nil _ _, ?_, ?_⟩, ?_, 0, ?_, ?_⟩
  · intro c hc
    rw [List.mem_singleton.1 hc]
    exact hd d List.mem_cons_self
  · exact fun c hc => hd c (List.mem_cons_of_mem d hc)
  · rw [exponential]
    cases ds <;> simp [Spelling.text, Spelling.placesText, Spelling.exponentText]
  · rw [Nat.pow_zero, Nat.mul_one]
    rfl
  · simp only [Option.getD_some, List.length_cons]
    omega

/-- Digits after the point only. -/
theorem exists_spelling_below (hne : digits ≠ []) (hd : ∀ c ∈ digits, c.isDigit = true) {e : Int}
    (he : e < 0) : ∃ s : Spelling, s.text = style.positional digits e ∧
      s.Writes (Numeral.ofDigits digits) (e + 1 - digits.length) := by
  have hplaces : List.replicate (-e - 1).toNat '0' ++ digits ≠ [] := fun h =>
    hne (List.append_eq_nil_iff.1 h).2
  refine ⟨⟨['0'], List.replicate (-e - 1).toNat '0' ++ digits, none, List.cons_ne_nil _ _, ?_, ?_⟩,
    ?_, 0, ?_, ?_⟩
  · intro c hc
    rw [List.mem_singleton.1 hc]
    decide
  · intro c hc
    rcases List.mem_append.1 hc with hc | hc
    · rw [List.eq_of_mem_replicate hc]
      decide
    · exact hd c hc
  · rw [positional, if_pos he, Spelling.text, Spelling.placesText, if_neg hplaces,
      Spelling.exponentText, List.append_nil]
    rfl
  · rw [Nat.pow_zero, Nat.mul_one, ← Numeral.ofDigits_replicate_append ((-e - 1).toNat + 1) digits,
      List.replicate_succ]
    rfl
  · simp only [Option.getD_none, List.length_append, List.length_replicate]
    omega

/-- Digits before the point only, but for the tail of whole numbers. -/
theorem exists_spelling_whole (htail : style.wholeTail = [] ∨ style.wholeTail = ['.', '0'])
    (hne : digits ≠ []) (hd : ∀ c ∈ digits, c.isDigit = true) {e : Int} (he : ¬e < 0)
    (hlen : digits.length ≤ e.toNat + 1) :
    ∃ s : Spelling, s.text = style.positional digits e ∧
      s.Writes (Numeral.ofDigits digits) (e + 1 - digits.length) := by
  have hwhole : digits ++ List.replicate (e.toNat + 1 - digits.length) '0' ≠ [] := fun h =>
    hne (List.append_eq_nil_iff.1 h).1
  have hzeros : ∀ c ∈ digits ++ List.replicate (e.toNat + 1 - digits.length) '0',
      c.isDigit = true := by
    intro c hc
    rcases List.mem_append.1 hc with hc | hc
    · exact hd c hc
    · rw [List.eq_of_mem_replicate hc]
      decide
  rcases htail with htail | htail
  · refine ⟨⟨_, [], none, hwhole, hzeros, fun c hc => by cases hc⟩, ?_,
      e.toNat + 1 - digits.length, ?_, ?_⟩
    · rw [positional, if_neg he, if_pos hlen, htail]
      rfl
    · rw [List.append_nil, Numeral.ofDigits_append_replicate]
    · simp only [Option.getD_none, List.length_nil]
      omega
  · refine ⟨⟨_, ['0'], none, hwhole, hzeros, ?_⟩, ?_, e.toNat + 1 - digits.length + 1, ?_, ?_⟩
    · intro c hc
      rw [List.mem_singleton.1 hc]
      decide
    · rw [positional, if_neg he, if_pos hlen, htail]
      rfl
    · rw [← Numeral.ofDigits_append_replicate, List.append_assoc, List.replicate_succ']
    · simp only [Option.getD_none, List.length_singleton]
      omega

/-- Digits on both sides of the point. -/
theorem exists_spelling_between (hne : digits ≠ []) (hd : ∀ c ∈ digits, c.isDigit = true) {e : Int}
    (he : ¬e < 0) (hlen : ¬digits.length ≤ e.toNat + 1) :
    ∃ s : Spelling, s.text = style.positional digits e ∧
      s.Writes (Numeral.ofDigits digits) (e + 1 - digits.length) := by
  have hwhole : digits.take (e.toNat + 1) ≠ [] := by
    rw [ne_eq, List.take_eq_nil_iff]
    simp [hne]
  have hplaces : digits.drop (e.toNat + 1) ≠ [] := by
    rw [ne_eq, List.drop_eq_nil_iff]
    exact hlen
  refine ⟨⟨_, digits.drop (e.toNat + 1), none, hwhole, fun c hc => hd c (List.mem_of_mem_take hc),
    fun c hc => hd c (List.mem_of_mem_drop hc)⟩, ?_, 0, ?_, ?_⟩
  · rw [positional, if_neg he, if_neg hlen, Spelling.text, Spelling.placesText, if_neg hplaces,
      Spelling.exponentText, List.append_nil]
  · rw [List.take_append_drop, Nat.pow_zero, Nat.mul_one]
  · simp only [Option.getD_none, List.length_drop]
    omega

/-- **Every layout of digits is a spelling of them.** -/
theorem exists_spelling (htail : style.wholeTail = [] ∨ style.wholeTail = ['.', '0'])
    (hne : digits ≠ []) (hd : ∀ c ∈ digits, c.isDigit = true) (e : Int) :
    ∃ s : Spelling, s.text = style.layout digits e ∧
      s.Writes (Numeral.ofDigits digits) (e + 1 - digits.length) := by
  rw [layout]
  split
  · by_cases he : e < 0
    · exact exists_spelling_below hne hd he
    · by_cases hlen : digits.length ≤ e.toNat + 1
      · exact exists_spelling_whole htail hne hd he hlen
      · exact exists_spelling_between hne hd he hlen
  · exact exists_spelling_exponential hne hd e

end NumberStyle

/-! ### Texts of numbers -/

/-- A digit is no capital letter. -/
theorem toLower_of_isDigit {c : Char} (h : c.isDigit = true) : c.toLower = c := by
  obtain ⟨-, hle⟩ := Numeral.toNat_of_isDigit h
  rw [Char.toLower]
  split
  · next hupper =>
    have hge : 65 ≤ c.toNat := hupper.1
    omega
  · rfl

namespace Number

/-- The sign of a written number. -/
def signText (negative : Bool) : List Char := if negative then ['-'] else []

theorem splitSign_signText_append (negative : Bool) {c : Char} {cs : List Char}
    (hc : c.isDigit = true) :
    Numeral.splitSign (signText negative ++ c :: cs) = (negative, c :: cs) := by
  cases negative with
  | true => rfl
  | false =>
    rw [signText, if_neg Bool.false_ne_true, List.nil_append, Numeral.splitSign.eq_def]
    split
    · next h => cases h; cases hc
    · next h => cases h; cases hc
    · rfl

/-- A spelling with a sign reads back as the sign and its parts. -/
theorem numeral_append_text (negative : Bool) (s : Spelling) :
    Numeral.ofText? (signText negative ++ s.text)
      = some ⟨negative, s.whole, s.places, s.exponent.getD 0⟩ := by
  obtain ⟨c, cs, htext, hc⟩ := s.exists_text_eq_cons
  rw [Numeral.ofText?, htext, splitSign_signText_append negative hc, ← htext, s.ofUnsigned?_text]

/-- No word begins with a digit. -/
theorem ofList_map_toLower_ne {c w : Char} {cs ws : List Char} (hc : c.isDigit = true)
    (hw : w.isDigit = false) :
    String.ofList ((c :: cs).map Char.toLower) ≠ String.ofList (w :: ws) := by
  intro h
  rw [List.map_cons, toLower_of_isDigit hc] at h
  obtain ⟨rfl, -⟩ := List.cons.inj (String.ofList_injective h)
  rw [hc] at hw
  cases hw

/-- **The number that a spelling with a sign denotes.** Since it begins with a digit, it is no name
of infinity or of not-a-number. -/
theorem ofText?_append_text (negative : Bool) (s : Spelling) :
    ofText? (signText negative ++ s.text)
      = some (Numeral.toDecimal ⟨negative, s.whole, s.places, s.exponent.getD 0⟩).toFloat := by
  obtain ⟨c, cs, htext, hc⟩ := s.exists_text_eq_cons
  have hsplit : Numeral.splitSign (signText negative ++ s.text) = (negative, s.text) := by
    rw [htext, splitSign_signText_append negative hc]
  have hword (w : Char) (ws : List Char) (hw : w.isDigit = false) :
      String.ofList (s.text.map Char.toLower) ≠ String.ofList (w :: ws) := by
    rw [htext]
    exact ofList_map_toLower_ne hc hw
  have hinf : String.ofList (s.text.map Char.toLower) ≠ "inf" := hword 'i' _ (by decide)
  have hinfinity : String.ofList (s.text.map Char.toLower) ≠ "infinity" := hword 'i' _ (by decide)
  have hnan : String.ofList (s.text.map Char.toLower) ≠ "nan" := hword 'n' _ (by decide)
  rw [ofText?, Numeral.ofText?, hsplit]
  simp only [hinf, hinfinity, hnan, decide_false, Bool.or_false, Bool.false_eq_true, if_false,
    s.ofUnsigned?_text, Option.map_some]

end Number

end OutlineLisp
