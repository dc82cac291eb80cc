import OutlineLisp.Json.Number
import OutlineLisp.Json.Token
import OutlineLisp.Proofs.Number.Canonical

/-!
# Number literals

A literal is scanned as far as it goes, so a written number is read back only if nothing that
follows goes on with it, and if its digits do not start with a needless zero. Spellings are literals
under that one condition on their zeros, which all written numbers and counts meet.

What a literal denotes is a matter of the spelling alone: the text of a finite number denotes that
number, the sign of a zero included, and a count of up to 64 bits is a finite number too.

## Main definitions

* `Json.IsLiteral`: the literals, as what is scanned whole.

## Main results

* `Json.isLiteral_text`: which spellings are literals.
* `Json.toFloat?_write`: a finite number is denoted by its text.
* `Json.toCount?_ofNat`: a count is denoted by its digits.
-/

namespace OutlineLisp

/-! ### Needless zeros -/

namespace NumberStyle

/-- The digits of a number other than zero do not start with zero. -/
theorem exists_digitsOf_eq_cons {n : Nat} (h : n ≠ 0) : ∃ c cs, digitsOf n = c :: cs ∧ c ≠ '0' := by
  have hdigit : ∀ n < 10, n ≠ 0 → n.digitChar ≠ '0' := by decide
  induction n using Nat.strong_induction_on with
  | _ n ih =>
    by_cases hlt : n < 10
    · exact ⟨n.digitChar, [], Nat.toDigits_of_lt_base hlt, hdigit n hlt h⟩
    · obtain ⟨c, cs, hcs, hc⟩ := ih (n / 10) (by omega) (by omega)
      rw [digitsOf] at hcs
      exact ⟨c, cs ++ [(n % 10).digitChar], by
        rw [digitsOf, Nat.toDigits_of_base_le (by decide) (by omega), hcs, List.cons_append], hc⟩

end NumberStyle

namespace Json

/-- The digits at the start of a text are the whole part of a number unless a zero is needless. -/
theorem isWhole_takeWhile {c : Char} {cs : List Char} (h : c ≠ '0' ∨ Stops Char.isDigit cs) :
    isWhole ((c :: cs).takeWhile Char.isDigit) = true := by
  by_cases hzero : c = '0'
  · have hcs : cs.takeWhile Char.isDigit = [] :=
      takeWhile_of_stops (h.resolve_left (not_not_intro hzero))
    rw [hzero, List.takeWhile_cons_of_pos (by decide), hcs]
    rfl
  · rw [List.takeWhile_cons]
    split
    · rw [isWhole.eq_2]
      rintro digits ⟨⟩
      exact hzero rfl
    · rfl

/-- The whole part of a spelling is the digits that its text starts with. -/
theorem takeWhile_text (s : Spelling) : s.text.takeWhile Char.isDigit = s.whole := by
  rw [Spelling.text]
  refine takeWhile_append_eq s.isDigit_whole ?_
  rw [Spelling.placesText]
  split
  · exact Spelling.stops_exponentText _
  · exact stops_cons (by decide) _

end Json

namespace NumberStyle

variable {style : NumberStyle}

/-- A layout of digits that do not start with zero starts with one of them, or with a zero in front
of the point. -/
theorem isWhole_layout {d : Char} (hd : d ≠ '0') (ds : List Char) (e : Int) :
    Json.isWhole ((style.layout (d :: ds) e).takeWhile Char.isDigit) = true := by
  rw [layout]
  split
  · rw [positional]
    split
    · exact Json.isWhole_takeWhile (.inr (stops_cons (by decide) _))
    · split
      · exact Json.isWhole_takeWhile (.inl hd)
      · rw [List.take_succ_cons]
        exact Json.isWhole_takeWhile (.inl hd)
  · exact Json.isWhole_takeWhile (.inl hd)

theorem isWhole_writeMagnitude (htail : style.wholeTail = [] ∨ style.wholeTail = ['.', '0'])
    {code : Nat} (h : code ≤ Binary64.infinity) :
    Json.isWhole ((style.writeMagnitude code).takeWhile Char.isDigit) = true := by
  rw [writeMagnitude]
  split
  · refine Json.isWhole_takeWhile (.inr ?_)
    rcases htail with htail | htail <;> rw [htail]
    · intro c hc
      cases hc
    · exact stops_cons (by decide) _
  · next hcode =>
    -- no digits at all would read back as zero
    have hdigits : (Shortest.decimal style.tie code).digits ≠ 0 := by
      intro hzero
      have hback := Shortest.scaledCode_decimal style.tie h
      rw [hzero, Decimal.scaledCode_zero] at hback
      exact hcode hback.symm
    obtain ⟨c, cs, hcs, hc⟩ := exists_digitsOf_eq_cons hdigits
    simp only [hcs]
    exact isWhole_layout hc cs _

end NumberStyle

/-! ### Scanning spellings -/

namespace Json

/-- Whether a character would go on with a number. -/
def goesOn (c : Char) : Bool := c.isDigit || c = '.' || c = 'e' || c = 'E'

theorem isDigit_of_goesOn {c : Char} (h : goesOn c = false) : c.isDigit = false := by
  simp_all [goesOn]

theorem readDigits?_append {ds rest : List Char} (hne : ds ≠ [])
    (hd : ∀ c ∈ ds, c.isDigit = true) (hrest : Stops Char.isDigit rest) :
    readDigits? (ds ++ rest) = some (ds, rest) := by
  simp [readDigits?, takeWhile_append_eq hd hrest, dropWhile_append_eq hd hrest, hne]

theorem splitSign_signed (e : Int) (rest : List Char) :
    splitSign (NumberStyle.signed e ++ rest)
      = ([if e < 0 then '-' else '+'], NumberStyle.digitsOf e.natAbs ++ rest) := by
  rw [NumberStyle.signed]
  split <;> rfl

theorem readExponent?_append (e : Option Int) {rest : List Char} (hrest : Stops goesOn rest) :
    readExponent? (Spelling.exponentText e ++ rest) = some (Spelling.exponentText e, rest) := by
  cases e with
  | none =>
    cases rest with
    | nil => rfl
    | cons c rest =>
      have hc := hrest c rfl
      simp only [goesOn, Bool.or_eq_false_iff] at hc
      simp [Spelling.exponentText, readExponent?, hc]
  | some e =>
    have hdigits := readDigits?_append (NumberStyle.digitsOf_ne_nil e.natAbs)
      (fun _ => NumberStyle.isDigit_of_mem_digitsOf) (hrest.imp fun _ => isDigit_of_goesOn)
    rw [Spelling.exponentText, List.cons_append, readExponent?, splitSign_signed, hdigits]
    rfl

/-- What follows the places of a spelling is neither a digit nor a point. -/
theorem stops_exponentText_append (e : Option Int) {rest : List Char} (hrest : Stops goesOn rest) :
    Stops (fun c => c.isDigit || c = '.') (Spelling.exponentText e ++ rest) := by
  cases e with
  | none => exact hrest.imp fun c hc => by simp_all [goesOn]
  | some e => exact stops_cons (by decide) _

theorem readPlaces?_append {places : List Char} (hd : ∀ c ∈ places, c.isDigit = true)
    {rest : List Char} (hrest : Stops (fun c => c.isDigit || c = '.') rest) :
    readPlaces? (Spelling.placesText places ++ rest) = some (Spelling.placesText places, rest) := by
  by_cases hne : places = []
  · rw [Spelling.placesText, if_pos hne, List.nil_append, readPlaces?.eq_def]
    split
    · have := hrest '.' rfl
      simp at this
    · rfl
  · have hdigits := readDigits?_append hne hd (hrest.imp fun c hc => by simp_all)
    simp [Spelling.placesText, hne, readPlaces?, hdigits]

theorem readUnsigned?_text_append {s : Spelling} (hs : isWhole s.whole = true) {rest : List Char}
    (hrest : Stops goesOn rest) : readUnsigned? (s.text ++ rest) = some (s.text, rest) := by
  have hexponent := readExponent?_append s.exponent hrest
  have hstops := stops_exponentText_append s.exponent hrest
  have hplaces := readPlaces?_append s.isDigit_places hstops
  have hwhole : Stops Char.isDigit
      (Spelling.placesText s.places ++ (Spelling.exponentText s.exponent ++ rest)) := by
    rw [Spelling.placesText]
    split
    · exact hstops.imp fun c hc => by simp_all
    · exact stops_cons (by decide) _
  rw [readUnsigned?, Spelling.text, List.append_assoc, List.append_assoc,
    readDigits?_append s.whole_ne_nil s.isDigit_whole hwhole]
  simp only [hs, if_true, hplaces, hexponent, Option.map_some, List.append_assoc]

/-! ### Literals -/

/-- A literal is what is scanned whole in front of whatever does not go on with it. -/
def IsLiteral (cs : List Char) : Prop :=
  ∀ rest, Stops goesOn rest → readNumber? (cs ++ rest) = some (cs, rest)

/-- **Which spellings are literals:** those without a needless zero, with or without a sign. -/
theorem isLiteral_text (negative : Bool) {s : Spelling} (hs : isWhole s.whole = true) :
    IsLiteral (Number.signText negative ++ s.text) := by
  intro rest hrest
  have htext := readUnsigned?_text_append hs hrest
  cases negative with
  | true => simp [Number.signText, readNumber?, htext]
  | false =>
    obtain ⟨c, cs, hcs, hc⟩ := s.exists_text_eq_cons
    rw [hcs, List.cons_append] at htext
    rw [Number.signText, if_neg Bool.false_ne_true, List.nil_append, hcs, List.cons_append,
      readNumber?.eq_def]
    split
    · next h =>
      cases h
      exact absurd hc (by decide)
    · exact htext

/-- A literal starts with a sign or a digit. -/
theorem IsLiteral.exists_eq_cons {cs : List Char} (h : IsLiteral cs) :
    ∃ c rest, cs = c :: rest ∧ (c = '-' ∨ c.isDigit = true) := by
  have hread := h [] (fun c hc => by cases hc)
  rw [List.append_nil, readNumber?.eq_def] at hread
  split at hread
  · exact ⟨_, _, rfl, .inl rfl⟩
  · cases cs with
    | nil => cases hread
    | cons c rest =>
      refine ⟨c, rest, rfl, .inr ?_⟩
      by_contra hc
      simp [readUnsigned?, readDigits?, hc] at hread

/-- What a literal of a spelling denotes. -/
theorem toFloat?_text (negative : Bool) {s : Spelling} (h : s.code < Binary64.infinity) :
    toFloat? .nearest (number (Number.signText negative ++ s.text))
      = some (Binary64.ofCode negative s.code) := by
  rw [toFloat?, Number.numeral_append_text, Option.map_some, Rounding.nearest,
    Number.toFloat_toDecimal, Option.filter_some, Binary64.isFinite_ofCode negative h]
  rfl

/-! ### Written numbers -/

/-- The text of a finite number is a spelling of its magnitude without a needless zero, and has its
sign even if it is zero. -/
theorem exists_write_eq {x : Float} (h : x.isFinite = true) :
    ∃ s : Spelling, numberStyle.write x = Number.signText (Binary64.isNegative x) ++ s.text ∧
      s.code = Binary64.code x ∧ isWhole s.whole = true := by
  have hle := Nat.le_of_lt ((Binary64.isFinite_iff x).1 h)
  obtain ⟨s, htext, hcode⟩ := numberStyle.exists_spelling_writeMagnitude (.inr rfl) hle
  refine ⟨s, ?_, hcode, ?_⟩
  · rw [NumberStyle.write, htext]
    cases hsign : Binary64.isNegative x <;> simp [numberStyle, Number.signText]
  · rw [← takeWhile_text, htext]
    exact numberStyle.isWhole_writeMagnitude (.inr rfl) hle

theorem isLiteral_write {x : Float} (h : x.isFinite = true) : IsLiteral (numberStyle.write x) := by
  obtain ⟨s, hwrite, -, hwhole⟩ := exists_write_eq h
  rw [hwrite]
  exact isLiteral_text _ hwhole

/-- **A finite number is denoted by its text,** a negative zero too. -/
theorem toFloat?_write {x : Float} (h : x.isFinite = true) :
    toFloat? .nearest (number (numberStyle.write x)) = some x := by
  obtain ⟨s, hwrite, hcode, -⟩ := exists_write_eq h
  rw [hwrite, toFloat?_text, hcode, Binary64.ofCode_code]
  rw [hcode]
  exact (Binary64.isFinite_iff x).1 h

/-- What a literal denotes is finite, whichever rounding is used. -/
theorem isFinite_of_toFloat? {round : Rounding} {j : Json} {x : Float}
    (h : toFloat? round j = some x) : x.isFinite = true := by
  cases j with
  | number literal =>
    rw [toFloat?, Option.filter_eq_some_iff] at h
    exact h.2
  | _ => cases h

/-! ### Written counts -/

/-- The digits of a count as a spelling. -/
def spellingOfNat (n : Nat) : Spelling where
  whole := NumberStyle.digitsOf n
  places := []
  exponent := none
  whole_ne_nil := NumberStyle.digitsOf_ne_nil n
  isDigit_whole _ := NumberStyle.isDigit_of_mem_digitsOf
  isDigit_places _ := by rintro ⟨⟩

theorem text_spellingOfNat (n : Nat) : (spellingOfNat n).text = NumberStyle.digitsOf n :=
  List.append_nil _

theorem ofNat_eq (n : Nat) :
    ofNat n = number (Number.signText false ++ (spellingOfNat n).text) := by
  rw [text_spellingOfNat]
  rfl

theorem code_spellingOfNat (n : Nat) : (spellingOfNat n).code = Binary64.nearest n 1 := by
  show Decimal.scaledCode (Numeral.ofDigits (NumberStyle.digitsOf n ++ [])) 0 = _
  rw [List.append_nil, NumberStyle.ofDigits_digitsOf, Decimal.scaledCode_eq, if_pos (Int.le_refl 0),
    Int.toNat_zero, Nat.pow_zero, Nat.mul_one]

theorem isWhole_digitsOf (n : Nat) : isWhole (NumberStyle.digitsOf n) = true := by
  by_cases hzero : n = 0
  · rw [hzero]
    rfl
  · obtain ⟨c, cs, hcs, hc⟩ := NumberStyle.exists_digitsOf_eq_cons hzero
    have hall := List.takeWhile_eq_self_iff.2 fun c hc =>
      NumberStyle.isDigit_of_mem_digitsOf (n := n) hc
    rw [← hall, hcs]
    exact isWhole_takeWhile (.inl hc)

theorem isLiteral_digitsOf (n : Nat) : IsLiteral (NumberStyle.digitsOf n) := by
  have h := isLiteral_text false (s := spellingOfNat n) (isWhole_digitsOf n)
  rwa [text_spellingOfNat] at h

/-- A count of up to 64 bits is a finite number, whoever takes it for one. -/
theorem isSome_toFloat?_ofNat {n : Nat} (h : n < UInt64.size) :
    (toFloat? .nearest (ofNat n)).isSome = true := by
  rw [ofNat_eq, toFloat?_text]
  · rfl
  · rw [code_spellingOfNat]
    exact Binary64.nearest_lt_infinity h

/-- **A count is denoted by its digits.** -/
theorem toCount?_ofNat {n bound : Nat} (h : n < bound) : (ofNat n).toCount? bound = some n := by
  show (if Numeral.isDigits (NumberStyle.digitsOf n)
      && decide (Numeral.ofDigits (NumberStyle.digitsOf n) < bound) then
        some (Numeral.ofDigits (NumberStyle.digitsOf n)) else none) = some n
  rw [NumberStyle.isDigits_digitsOf, NumberStyle.ofDigits_digitsOf, decide_eq_true h]
  rfl

@[simp] theorem toUInt16?_ofNat (n : UInt16) : (ofNat n.toNat).toUInt16? = some n := by
  rw [toUInt16?, toCount?_ofNat n.toNat_lt_size, Option.map_some, UInt16.ofNat_toNat]

@[simp] theorem toUInt32?_ofNat (n : UInt32) : (ofNat n.toNat).toUInt32? = some n := by
  rw [toUInt32?, toCount?_ofNat n.toNat_lt_size, Option.map_some, UInt32.ofNat_toNat]

@[simp] theorem toUInt64?_ofNat (n : UInt64) : (ofNat n.toNat).toUInt64? = some n := by
  rw [toUInt64?, toCount?_ofNat n.toNat_lt_size, Option.map_some, UInt64.ofNat_toNat]

end Json

end OutlineLisp
