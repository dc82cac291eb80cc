import OutlineLisp.Json.Basic

/-!
# The tokens of a JSON text

A JSON text is cut into tokens from left to right. Four characters are blank; a number is a maximal
literal of the grammar; a text may write a character by its code point in four hexadecimal digits,
and one beyond them by a pair of surrogates.

## Main definitions

* `Json.readNumber?`: the number literal at the start of a text.
* `Json.readUnits?`, `Json.joinUnits?`: the code units of a quoted text, and the text that they
  stand for.
* `Json.Token.ofText?`: the tokens of a text.
-/

namespace OutlineLisp

namespace Json

/-- Whether a character may stand between tokens. -/
def isBlank (c : Char) : Bool := c = ' ' || c = '\n' || c = '\r' || c = '\t'

/-! ### Numbers -/

/-- The digits at the start of a text, at least one, and what follows. -/
def readDigits? (cs : List Char) : Option (List Char × List Char) :=
  let digits := cs.takeWhile Char.isDigit
  if digits.isEmpty then none else some (digits, cs.dropWhile Char.isDigit)

/-- The point and places at the start of a text, if there is a point, and what follows. -/
def readPlaces? : List Char → Option (List Char × List Char)
  | '.' :: cs => (readDigits? cs).map fun (digits, rest) => ('.' :: digits, rest)
  | cs => some ([], cs)

/-- The sign at the start of an exponent, if there is one, and what follows. -/
def splitSign : List Char → List Char × List Char
  | '+' :: cs => (['+'], cs)
  | '-' :: cs => (['-'], cs)
  | cs => ([], cs)

/-- The exponent at the start of a text, if there is one, and what follows. -/
def readExponent? : List Char → Option (List Char × List Char)
  | [] => some ([], [])
  | c :: cs =>
    if c = 'e' || c = 'E' then
      (readDigits? (splitSign cs).2).map fun (digits, rest) =>
        (c :: (splitSign cs).1 ++ digits, rest)
    else some ([], c :: cs)

/-- Whether digits are the whole part of a number: they start with zero only if they are zero. -/
def isWhole : List Char → Bool
  | '0' :: digits => digits.isEmpty
  | _ => true

/-- The unsigned number literal at the start of a text, and what follows. -/
def readUnsigned? (cs : List Char) : Option (List Char × List Char) :=
  match readDigits? cs with
  | none => none
  | some (whole, rest) =>
    if isWhole whole then
      match readPlaces? rest with
      | none => none
      | some (places, rest) =>
        (readExponent? rest).map fun (exponent, rest) => (whole ++ places ++ exponent, rest)
    else none

/-- The number literal at the start of a text, and what follows. -/
def readNumber? : List Char → Option (List Char × List Char)
  | '-' :: cs => (readUnsigned? cs).map fun (literal, rest) => ('-' :: literal, rest)
  | cs => readUnsigned? cs

/-! ### Texts -/

/-- The value of a hexadecimal digit. -/
def hexValue? (c : Char) : Option Nat :=
  if c.isDigit then some (c.toNat - '0'.toNat)
  else if 'a' ≤ c ∧ c ≤ 'f' then some (c.toNat - 'a'.toNat + 10)
  else if 'A' ≤ c ∧ c ≤ 'F' then some (c.toNat - 'A'.toNat + 10)
  else none

/-- The number that four hexadecimal digits write. -/
def hexUnit? (a b c d : Char) : Option Nat := do
  let a ← hexValue? a
  let b ← hexValue? b
  let c ← hexValue? c
  let d ← hexValue? d
  return ((a * 16 + b) * 16 + c) * 16 + d

/-- The code unit that a character after a backslash stands for. -/
def escaped? (c : Char) : Option Nat :=
  if c = '\x22' || c = '\\' || c = '/' then some c.toNat
  else if c = 'b' then some 0x08
  else if c = 'f' then some 0x0c
  else if c = 'n' then some 0x0a
  else if c = 'r' then some 0x0d
  else if c = 't' then some 0x09
  else none

/-- The code units of a text up to its closing quote, and what follows the quote. A unit is a code
point or, if it was escaped, perhaps half of a surrogate pair. -/
def readUnits? : List Char → Option (List Nat × List Char)
  | [] => none
  | c :: cs =>
    if c = '\x22' then some ([], cs)
    else if c = '\\' then
      match cs with
      | 'u' :: h₁ :: h₂ :: h₃ :: h₄ :: cs =>
        match hexUnit? h₁ h₂ h₃ h₄, readUnits? cs with
        | some u, some (us, rest) => some (u :: us, rest)
        | _, _ => none
      | e :: cs =>
        match escaped? e, readUnits? cs with
        | some u, some (us, rest) => some (u :: us, rest)
        | _, _ => none
      | [] => none
    else if c.toNat < 0x20 then none
    else
      match readUnits? cs with
      | some (us, rest) => some (c.toNat :: us, rest)
      | none => none

/-- Whether a code unit is the first half of a surrogate pair. -/
def isLead (u : Nat) : Bool := decide (0xD800 ≤ u ∧ u < 0xDC00)

/-- Whether a code unit is the second half of a surrogate pair. -/
def isTrail (u : Nat) : Bool := decide (0xDC00 ≤ u ∧ u < 0xE000)

/-- The text that code units stand for, unless a surrogate among them is unpaired. -/
def joinUnits? : List Nat → Option (List Char)
  | [] => some []
  | [u] => if isLead u || isTrail u then none else some [Char.ofNat u]
  | u :: v :: us =>
    if isLead u then
      if isTrail v then
        (joinUnits? us).map (Char.ofNat (0x10000 + (u - 0xD800) * 0x400 + (v - 0xDC00)) :: ·)
      else none
    else if isTrail u then none
    else (joinUnits? (v :: us)).map (Char.ofNat u :: ·)

/-! ### The rest is shorter -/

theorem length_of_readDigits? {cs digits rest : List Char}
    (h : readDigits? cs = some (digits, rest)) : rest.length < cs.length := by
  simp only [readDigits?] at h
  split at h
  · cases h
  · next hne =>
    simp only [Option.some.injEq, Prod.mk.injEq] at h
    obtain ⟨rfl, rfl⟩ := h
    have := congrArg List.length (List.takeWhile_append_dropWhile (p := Char.isDigit) (l := cs))
    have hpos : 0 < (cs.takeWhile Char.isDigit).length := by
      cases hd : cs.takeWhile Char.isDigit with
      | nil => simp [hd] at hne
      | cons c ds => simp
    rw [List.length_append] at this
    omega

theorem length_of_readPlaces? {cs places rest : List Char}
    (h : readPlaces? cs = some (places, rest)) : rest.length ≤ cs.length := by
  unfold readPlaces? at h
  split at h
  · next cs =>
    obtain ⟨⟨digits, r⟩, hd, he⟩ := Option.map_eq_some_iff.1 h
    cases he
    have := length_of_readDigits? hd
    simp only [List.length_cons]
    omega
  · cases h
    exact Nat.le_refl _

theorem length_splitSign (cs : List Char) : (splitSign cs).2.length ≤ cs.length := by
  unfold splitSign
  split <;> simp

theorem length_of_readExponent? {cs exponent rest : List Char}
    (h : readExponent? cs = some (exponent, rest)) : rest.length ≤ cs.length := by
  unfold readExponent? at h
  split at h
  · cases h
    exact Nat.le_refl _
  · next c cs =>
    split at h
    · obtain ⟨⟨digits, r⟩, hd, he⟩ := Option.map_eq_some_iff.1 h
      cases he
      have := length_of_readDigits? hd
      have := length_splitSign cs
      simp only [List.length_cons]
      omega
    · cases h
      exact Nat.le_refl _

theorem length_of_readUnsigned? {cs literal rest : List Char}
    (h : readUnsigned? cs = some (literal, rest)) : rest.length < cs.length := by
  unfold readUnsigned? at h
  split at h
  · cases h
  · next whole r₁ hw =>
    split at h
    · split at h
      · cases h
      · next places r₂ hp =>
        obtain ⟨⟨exponent, r₃⟩, he, hr⟩ := Option.map_eq_some_iff.1 h
        cases hr
        have := length_of_readDigits? hw
        have := length_of_readPlaces? hp
        have := length_of_readExponent? he
        omega
    · cases h

theorem length_of_readNumber? {cs literal rest : List Char}
    (h : readNumber? cs = some (literal, rest)) : rest.length < cs.length := by
  unfold readNumber? at h
  split at h
  · obtain ⟨⟨l, r⟩, hu, he⟩ := Option.map_eq_some_iff.1 h
    cases he
    have := length_of_readUnsigned? hu
    simp only [List.length_cons]
    omega
  · exact length_of_readUnsigned? h

theorem length_of_readUnits? {cs rest : List Char} {us : List Nat}
    (h : readUnits? cs = some (us, rest)) : rest.length < cs.length := by
  fun_induction readUnits? cs generalizing us rest <;> simp_all
  all_goals grind

/-! ### Tokens -/

/-- The token that a single character is. -/
def punctuation? (c : Char) : Option Token :=
  if c = '\x7b' then some .openObject
  else if c = '\x7d' then some .closeObject
  else if c = '[' then some .openArray
  else if c = ']' then some .closeArray
  else if c = ',' then some .comma
  else if c = ':' then some .colon
  else none

/-- The token at the start of a text, and what follows. -/
def readToken? : List Char → Option (Token × List Char)
  | [] => none
  | c :: cs =>
    match punctuation? c with
    | some t => some (t, cs)
    | none =>
      if c = '\x22' then (readUnits? cs).map fun (us, rest) => (.string (joinUnits? us), rest)
      else
        match c :: cs with
        | 'n' :: 'u' :: 'l' :: 'l' :: rest => some (.null, rest)
        | 't' :: 'r' :: 'u' :: 'e' :: rest => some (.bool true, rest)
        | 'f' :: 'a' :: 'l' :: 's' :: 'e' :: rest => some (.bool false, rest)
        | text => (readNumber? text).map fun (literal, rest) => (.number literal, rest)

theorem length_of_readToken? {cs rest : List Char} {t : Token}
    (h : readToken? cs = some (t, rest)) : rest.length < cs.length := by
  unfold readToken? at h
  split at h
  · cases h
  · split at h
    · cases h
      simp
    · split at h
      · obtain ⟨⟨us, r⟩, hu, he⟩ := Option.map_eq_some_iff.1 h
        cases he
        have := length_of_readUnits? hu
        simp only [List.length_cons]
        omega
      · split at h
        · next heq => cases heq; cases h; simp; omega
        · next heq => cases heq; cases h; simp; omega
        · next heq => cases heq; cases h; simp; omega
        · obtain ⟨⟨literal, r⟩, hn, he⟩ := Option.map_eq_some_iff.1 h
          cases he
          exact length_of_readNumber? hn

/-- The tokens of a text. -/
def Token.ofText? (cs : List Char) : Option (List Token) :=
  match _hc : cs.dropWhile isBlank with
  | [] => some []
  | c :: rest =>
    match _ht : readToken? (c :: rest) with
    | some (t, rest) => (Token.ofText? rest).map (t :: ·)
    | none => none
termination_by cs.length
decreasing_by
  have h := congrArg List.length (List.takeWhile_append_dropWhile (p := isBlank) (l := cs))
  have := length_of_readToken? ‹_›
  rw [‹cs.dropWhile isBlank = _›, List.length_append] at h
  omega

end Json

end OutlineLisp
