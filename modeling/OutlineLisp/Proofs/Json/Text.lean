import OutlineLisp.Json.Reader
import OutlineLisp.Proofs.Json.Literal
import OutlineLisp.Proofs.Json.Quoted

/-!
# Written values read back

The text of a value is cut into the tokens that it was written from: a token is recognised by its
first character, and what follows a number closes or separates, so nothing goes on with it. From the
tokens of a value the reader makes the value again, whatever is open around it.

The one condition is that numbers are literals. Repeated keys, and texts that stand for no text at
all, are no hindrance.

## Main definitions

* `Json.Writable`: values whose numbers are literals.
* `Json.Token.Spaced`: runs of tokens in which nothing goes on with a number.

## Main results

* `Json.Token.ofText?_flatMap_text`: spaced tokens are told apart in their text.
* `Json.Reader.run?_tokens`: the tokens of a value deliver it.
* `Json.ofText?_write`: writable values read back.
-/

namespace OutlineLisp

namespace Json

/-! ### Tokens -/

namespace Token

/-- Whether a token is recognised: a number has to be a literal. -/
def IsLegible : Token → Prop
  | number literal => IsLiteral literal
  | _ => True

/-- Whether a token ends what is in front of it, a number too. -/
def IsStop : Token → Prop
  | comma => True
  | closeArray => True
  | closeObject => True
  | _ => False

/-- The text of a number is recognised if nothing goes on with it. -/
theorem readToken?_number_append {literal rest : List Char} (h : IsLiteral literal)
    (hrest : Stops goesOn rest) :
    readToken? (literal ++ rest) = some (number literal, rest) := by
  have hread := h rest hrest
  obtain ⟨c, cs, rfl, hc⟩ := h.exists_eq_cons
  have hstart : punctuation? c = none ∧ c ≠ '\x22' ∧ c ≠ 'n' ∧ c ≠ 't' ∧ c ≠ 'f' := by
    rcases hc with rfl | hc
    · decide
    · have hne (d : Char) (hd : d.isDigit = false) : c ≠ d := by
        rintro rfl
        rw [hc] at hd
        cases hd
      refine ⟨?_, hne _ (by decide), hne _ (by decide), hne _ (by decide), hne _ (by decide)⟩
      simp [punctuation?, hne '\x7b' (by decide), hne '\x7d' (by decide), hne '[' (by decide),
        hne ']' (by decide), hne ',' (by decide), hne ':' (by decide)]
  obtain ⟨hnone, hquote, hn, ht, hf⟩ := hstart
  rw [List.cons_append] at hread ⊢
  simp only [readToken?, hnone, hquote, if_false]
  split
  · next h => exact absurd (List.cons.inj h).1 hn
  · next h => exact absurd (List.cons.inj h).1 ht
  · next h => exact absurd (List.cons.inj h).1 hf
  · rw [hread]
    rfl

/-- **A token is recognised** at the start of a text. -/
theorem readToken?_text_append {t : Token} (h : t.IsLegible) {rest : List Char}
    (hrest : ∀ literal, t = number literal → Stops goesOn rest) :
    readToken? (t.text ++ rest) = some (t, rest) := by
  cases t with
  | number literal => exact readToken?_number_append h (hrest literal rfl)
  | string s =>
    obtain ⟨body, hquote, hbody⟩ := readUnits?_quote? s
    obtain ⟨us, hunits, hjoin⟩ := hbody rest
    have hnone : punctuation? '\x22' = none := by decide
    rw [text, hquote, List.cons_append]
    simp only [readToken?, hnone, if_true, hunits, Option.map_some, hjoin]
  | bool b => cases b <;> rfl
  | _ => rfl

theorem exists_text_eq_cons {t : Token} (h : t.IsLegible) :
    ∃ c cs, t.text = c :: cs ∧ isBlank c = false := by
  cases t with
  | number literal =>
    obtain ⟨c, cs, hcs, hc⟩ := IsLiteral.exists_eq_cons h
    refine ⟨c, cs, hcs, ?_⟩
    rcases hc with rfl | hc
    · decide
    · by_contra hblank
      simp only [isBlank, Bool.not_eq_false, Bool.or_eq_true, decide_eq_true_eq] at hblank
      rcases hblank with ((rfl | rfl) | rfl) | rfl <;> exact absurd hc (by decide)
  | string s =>
    obtain ⟨body, hquote, -⟩ := readUnits?_quote? s
    exact ⟨_, _, hquote, by decide⟩
  | bool b => cases b <;> exact ⟨_, _, rfl, by decide⟩
  | _ => exact ⟨_, _, rfl, by decide⟩

/-! ### Runs of tokens -/

/-- Whether the tokens of a run are told apart in its text. -/
def Spaced : List Token → Prop
  | [] => True
  | t :: ts => t.IsLegible ∧ (∀ literal, t = number literal → ∀ next ∈ ts.head?, next.IsStop)
      ∧ Spaced ts

/-- Nothing goes on with a number in front of a stop. -/
theorem stops_flatMap_text {ts : List Token} (h : ∀ t ∈ ts.head?, t.IsStop) :
    Stops goesOn (ts.flatMap text) := by
  cases ts with
  | nil => rintro c ⟨⟩
  | cons t ts =>
    have ht := h t rfl
    cases t with
    | comma | closeArray | closeObject => exact stops_cons (by decide) _
    | _ => exact ht.elim

/-- **Spaced tokens are told apart in their text.** -/
theorem ofText?_flatMap_text {ts : List Token} (h : Spaced ts) :
    ofText? (ts.flatMap text) = some ts := by
  induction ts with
  | nil => rw [ofText?.eq_def]; rfl
  | cons t ts ih =>
    obtain ⟨hlegible, hnext, hspaced⟩ := h
    have hread : readToken? (t.text ++ ts.flatMap text) = some (t, ts.flatMap text) :=
      readToken?_text_append hlegible fun literal hl => stops_flatMap_text (hnext literal hl)
    obtain ⟨c, cs, htext, hblank⟩ := exists_text_eq_cons hlegible
    rw [htext, List.cons_append] at hread
    have hdrop : (c :: (cs ++ ts.flatMap text)).dropWhile isBlank
        = c :: (cs ++ ts.flatMap text) := dropWhile_of_stops (stops_cons hblank _)
    rw [List.flatMap_cons, htext, List.cons_append, ofText?.eq_def]
    split
    · next hnil =>
      rw [hdrop] at hnil
      cases hnil
    · next hcons =>
      rw [hdrop] at hcons
      cases hcons
      split
      · next hsome =>
        rw [hread] at hsome
        cases hsome
        rw [ih hspaced, Option.map_some]
      · next hnone =>
        rw [hread] at hnone
        cases hnone

end Token

/-! ### The tokens of a value -/

open Token

/-- Whether all numbers of a value are literals. -/
inductive Writable : Json → Prop
  | null : Writable null
  | bool (b : Bool) : Writable (bool b)
  | number {literal : List Char} (h : IsLiteral literal) : Writable (number literal)
  | string (s : Option (List Char)) : Writable (string s)
  | array {items : List Json} (h : ∀ j ∈ items, Writable j) : Writable (array items)
  | object {members : List (Option (List Char) × Json)} (h : ∀ m ∈ members, Writable m.2) :
    Writable (object members)

/-- Whether a run of tokens may follow a value. -/
structure Follows (ts : List Token) : Prop where
  spaced : Spaced ts
  isStop : ∀ t ∈ ts.head?, t.IsStop

theorem follows_nil : Follows [] := ⟨trivial, fun _ ht => by cases ht⟩

theorem follows_cons {t : Token} {ts : List Token} (ht : t.IsStop) (hts : Spaced ts) :
    Follows (t :: ts) := by
  refine ⟨⟨?_, ?_, hts⟩, fun next hnext => ?_⟩
  · cases t <;> trivial
  · rintro literal rfl
    exact ht.elim
  · obtain rfl := Option.some.inj hnext
    exact ht

theorem follows_tokensOfItems {items : List Json}
    (h : ∀ j ∈ items, ∀ ts, Follows ts → Spaced (j.tokens ++ ts)) {ts : List Token}
    (hts : Follows ts) : Follows (tokensOfItems items ++ ts) := by
  induction items with
  | nil => exact hts
  | cons item items ih =>
    rw [List.forall_mem_cons] at h
    rw [tokensOfItems, List.cons_append, List.append_assoc]
    exact follows_cons trivial (h.1 _ (ih h.2))

theorem follows_tokensOfMembers {members : List (Option (List Char) × Json)}
    (h : ∀ m ∈ members, ∀ ts, Follows ts → Spaced (m.2.tokens ++ ts)) {ts : List Token}
    (hts : Follows ts) : Follows (tokensOfMembers members ++ ts) := by
  induction members with
  | nil => exact hts
  | cons member members ih =>
    rw [List.forall_mem_cons] at h
    rw [tokensOfMembers, List.cons_append, List.cons_append, List.cons_append, List.append_assoc]
    have hvalue := h.1 _ (ih h.2)
    exact follows_cons trivial ⟨trivial, by rintro _ ⟨⟩, trivial, by rintro _ ⟨⟩, hvalue⟩

/-- The tokens of a writable value are spaced, and do not run into what may follow. -/
theorem Writable.spaced {j : Json} (h : j.Writable) :
    ∀ ts, Follows ts → Spaced (j.tokens ++ ts) := by
  induction h with
  | null | bool | string =>
    intro ts hts
    exact ⟨trivial, by rintro _ ⟨⟩, hts.spaced⟩
  | number h => exact fun ts hts => ⟨h, fun _ _ => hts.isStop, hts.spaced⟩
  | @array items h ih =>
    intro ts hts
    have hclose : Follows (.closeArray :: ts) := follows_cons trivial hts.spaced
    cases items with
    | nil => exact ⟨trivial, by rintro _ ⟨⟩, hclose.spaced⟩
    | cons item items =>
      rw [List.forall_mem_cons] at ih
      rw [tokens, List.cons_append, List.append_assoc, List.append_assoc, List.singleton_append]
      exact ⟨trivial, by rintro _ ⟨⟩, ih.1 _ (follows_tokensOfItems ih.2 hclose)⟩
  | @object members h ih =>
    intro ts hts
    have hclose : Follows (.closeObject :: ts) := follows_cons trivial hts.spaced
    cases members with
    | nil => exact ⟨trivial, by rintro _ ⟨⟩, hclose.spaced⟩
    | cons member members =>
      rw [List.forall_mem_cons] at ih
      rw [tokens, List.cons_append, List.cons_append, List.cons_append, List.append_assoc,
        List.append_assoc, List.singleton_append]
      have hvalue := ih.1 _ (follows_tokensOfMembers ih.2 hclose)
      exact ⟨trivial, by rintro _ ⟨⟩, trivial, by rintro _ ⟨⟩, trivial, by rintro _ ⟨⟩, hvalue⟩

/-! ### Reading tokens -/

namespace Reader

/-- No value starts with the end of an array, so a first item is read like any value. -/
theorem run?_firstItem (j : Json) (stack : List Open) (ts : List Token) :
    run? (.firstItem stack) (j.tokens ++ ts)
      = run? (.value (.array [] :: stack)) (j.tokens ++ ts) := by
  cases j with
  | array items => cases items <;> rfl
  | object members => cases members <;> rfl
  | _ => rfl

mutual

/-- **The tokens of a value deliver it** to what is open around it. -/
theorem run?_tokens (j : Json) (stack : List Open) (ts : List Token) :
    run? (.value stack) (j.tokens ++ ts) = run? (deliver j stack) ts := by
  match j with
  | .null | .bool b | .number literal | .string s | .array [] | .object [] => rfl
  | .array (item :: items) =>
    rw [tokens, List.cons_append, List.append_assoc, List.append_assoc, List.singleton_append]
    show run? (.firstItem stack) _ = _
    rw [run?_firstItem, run?_tokens item]
    exact run?_tokensOfItems items [item] stack ts
  | .object ((key, v) :: members) =>
    rw [tokens, List.cons_append, List.cons_append, List.cons_append, List.append_assoc,
      List.append_assoc, List.singleton_append]
    show run? (.value (.object [] key :: stack)) _ = _
    rw [run?_tokens v]
    exact run?_tokensOfMembers members [(key, v)] stack ts

theorem run?_tokensOfItems (items acc : List Json) (stack : List Open) (ts : List Token) :
    run? (.afterItem acc stack) (tokensOfItems items ++ .closeArray :: ts)
      = run? (deliver (.array (acc.reverse ++ items)) stack) ts := by
  match items with
  | [] =>
    rw [List.append_nil]
    rfl
  | item :: items =>
    rw [tokensOfItems, List.cons_append, List.append_assoc]
    show run? (.value (.array acc :: stack)) _ = _
    rw [run?_tokens item, List.append_cons acc.reverse, ← List.reverse_cons]
    exact run?_tokensOfItems items (item :: acc) stack ts

theorem run?_tokensOfMembers (members acc : List (Option (List Char) × Json)) (stack : List Open)
    (ts : List Token) :
    run? (.afterMember acc stack) (tokensOfMembers members ++ .closeObject :: ts)
      = run? (deliver (.object (acc.reverse ++ members)) stack) ts := by
  match members with
  | [] =>
    rw [List.append_nil]
    rfl
  | (key, v) :: members =>
    rw [tokensOfMembers, List.cons_append, List.cons_append, List.cons_append, List.append_assoc]
    show run? (.value (.object acc key :: stack)) _ = _
    rw [run?_tokens v, List.append_cons acc.reverse, ← List.reverse_cons]
    exact run?_tokensOfMembers members ((key, v) :: acc) stack ts

end

end Reader

theorem ofTokens?_tokens (j : Json) : ofTokens? j.tokens = some j := by
  have h := Reader.run?_tokens j [] []
  rw [List.append_nil] at h
  rw [ofTokens?, h]
  rfl

/-- **Writable values read back.** -/
theorem ofText?_write {j : Json} (h : j.Writable) : ofText? j.write = some j := by
  have hspaced := h.spaced [] follows_nil
  rw [List.append_nil] at hspaced
  rw [ofText?, write, Token.ofText?_flatMap_text hspaced, Option.bind_some, ofTokens?_tokens]

end Json

end OutlineLisp
