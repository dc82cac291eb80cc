import OutlineLisp.Proofs.Outline.Markers
import OutlineLisp.Proofs.Source.Lines
import OutlineLisp.Proofs.Tree.Positions

/-!
# Lines in another layout

A line is some blanks and then a text that begins with a visible character. Of the blanks only the
width counts, and of the text what is left without the blanks at its end. So a line says the same,
at the same level, when blanks are added behind it, when a tab in front of it becomes two spaces,
when its marker is exchanged for the other one, and when more `#` stand in front of a heading. More
blanks in front of it only make its level deeper.

## Main definitions

* `Line.Relaid`: lines that differ in their layout.
* `Line.Silent`: lines that say nothing.
* `Line.sunk`: a line some levels deeper.

## Main results

* `Line.bareOfRaw?_append_visible`: what a line says.
* `Line.Relaid.bareOfRaw?_eq`: lines that differ in their layout say the same.
* `Line.bareOfRaw?_indented`: what a line says behind more blanks.
-/

namespace OutlineLisp

/-! ### Blanks at the end -/

namespace Text

variable {cs bs : List Char}

theorem trimEnd_append_blanks (h : ∀ b ∈ bs, isBlank b = true) (cs : List Char) :
    trimEnd (cs ++ bs) = trimEnd cs := by
  rw [trimEnd, trimEnd, List.reverse_append,
    List.dropWhile_append_of_pos fun b hb => h b (List.mem_reverse.1 hb)]

/-- In front of a visible character nothing is trimmed. -/
theorem trimEnd_append_of_visible (h : ∃ c ∈ cs, isBlank c = false) (bs : List Char) :
    trimEnd (bs ++ cs) = bs ++ trimEnd cs := by
  have hne : (cs.reverse.dropWhile isBlank).isEmpty = false := by
    obtain ⟨c, hc, hvisible⟩ := h
    refine Bool.eq_false_iff.2 fun hempty => ?_
    have hall := List.dropWhile_eq_nil_iff.1 (List.isEmpty_iff.1 hempty)
    rw [hall c (List.mem_reverse.2 hc)] at hvisible
    cases hvisible
  rw [trimEnd, trimEnd, List.reverse_append, List.dropWhile_append, hne, if_neg Bool.false_ne_true,
    List.reverse_append, List.reverse_reverse]

theorem trimEnd_cons_of_visible {c : Char} (h : isBlank c = false) (cs : List Char) :
    trimEnd (c :: cs) = c :: trimEnd cs := by
  have hc : [c].dropWhile isBlank = [c] := List.dropWhile_cons_of_neg (Bool.eq_false_iff.1 h)
  rw [trimEnd, trimEnd, List.reverse_cons, List.dropWhile_append, hc]
  -- Trimming from the end reaches the character only if all behind it is blank.
  split
  · next hnil =>
    rw [List.isEmpty_iff.1 hnil]
    rfl
  · rw [List.reverse_append]
    rfl

theorem trim_of_blank (h : ∀ c ∈ cs, isBlank c = true) : trim cs = [] := by
  rw [trim, trimStart, List.dropWhile_eq_nil_iff.2 h, trimEnd_nil]

/-- A text is blank, or it is some blanks and then a text that begins with a visible character. -/
theorem blank_or_exists_visible (cs : List Char) :
    (∀ c ∈ cs, isBlank c = true) ∨ ∃ blanks c rest, (∀ b ∈ blanks, isBlank b = true) ∧
      isBlank c = false ∧ cs = blanks ++ c :: rest := by
  have hsplit : cs.takeWhile isBlank ++ cs.dropWhile isBlank = cs := List.takeWhile_append_dropWhile
  cases hrest : cs.dropWhile isBlank with
  | nil => exact .inl (List.dropWhile_eq_nil_iff.1 hrest)
  | cons c rest =>
    rw [hrest] at hsplit
    refine .inr ⟨cs.takeWhile isBlank, c, rest, fun b hb => ?_, ?_, hsplit.symm⟩
    · exact List.all_eq_true.1 List.all_takeWhile b hb
    · exact stops_dropWhile isBlank cs c (by rw [hrest]; rfl)

end Text

namespace Line

open Text

variable {blanks raw : List Char}

/-! ### What a line says -/

/-- A line some levels deeper. -/
def sunk (k : ℕ) (line : Line) : Line := { line with indent := line.indent + k }

theorem width_append (bs cs : List Char) : width (bs ++ cs) = width bs + width cs := by
  induction bs with
  | nil => exact (Nat.zero_add _).symm
  | cons b bs ih =>
    show blankWidth b + width (bs ++ cs) = blankWidth b + width bs + width cs
    rw [ih, Nat.add_assoc]

theorem bareOfRaw?_of_blank (h : ∀ c ∈ raw, isBlank c = true) : bareOfRaw? raw = none := by
  rw [bareOfRaw?, trim_of_blank h]
  rfl

/-- **What a line says** that begins with a visible character behind some blanks. -/
theorem bareOfRaw?_append_visible (h : ∀ b ∈ blanks, isBlank b = true) {c : Char}
    (hc : isBlank c = false) (rest : List Char) :
    bareOfRaw? (blanks ++ c :: rest)
      = some { kind := classify (trimEnd (c :: rest)), indent := width blanks / 2
               span := {} } := by
  have hvisible : StartsVisible (c :: rest) := stops_cons hc rest
  have htrim : trim (blanks ++ c :: rest) = trimEnd (c :: rest) := by
    rw [trim_append h, trim, trimStart_of_startsVisible hvisible]
  rw [bareOfRaw?, htrim, trimEnd_cons_of_visible hc, List.isEmpty_cons, if_neg Bool.false_ne_true,
    indentLevel, leading, takeWhile_append_eq h hvisible]

/-- Blanks behind a line do not count. -/
theorem bareOfRaw?_append_blanks (h : ∀ b ∈ blanks, isBlank b = true) (raw : List Char) :
    bareOfRaw? (raw ++ blanks) = bareOfRaw? raw := by
  rcases blank_or_exists_visible raw with hraw | ⟨front, c, rest, hfront, hc, rfl⟩
  · have hall : ∀ c ∈ raw ++ blanks, isBlank c = true := List.forall_mem_append.2 ⟨hraw, h⟩
    rw [bareOfRaw?_of_blank hall, bareOfRaw?_of_blank hraw]
  · rw [List.append_assoc, List.cons_append, bareOfRaw?_append_visible hfront hc,
      bareOfRaw?_append_visible hfront hc, ← List.cons_append, trimEnd_append_blanks h]

/-- The carriage returns of a line break do not count either. -/
theorem bareOfRaw?_dropReturns (raw : List Char) :
    bareOfRaw? (Document.dropReturns raw) = bareOfRaw? raw := by
  have hsplit : Document.dropReturns raw ++ raw.rtakeWhile (fun c => c = '\r') = raw :=
    List.rdropWhile_append_rtakeWhile
  have hreturns : ∀ c ∈ raw.rtakeWhile (fun c => c = '\r'), isBlank c = true := by
    intro c hc
    have hreturn : decide (c = '\r') = true := List.mem_rtakeWhile_imp (p := fun c => c = '\r') hc
    rw [of_decide_eq_true hreturn]
    decide
  conv_rhs => rw [← hsplit]
  exact (bareOfRaw?_append_blanks hreturns _).symm

/-- Of the blanks in front of a line only the width counts. -/
theorem bareOfRaw?_append_congr {blanks' : List Char} (h : ∀ b ∈ blanks, isBlank b = true)
    (h' : ∀ b ∈ blanks', isBlank b = true) (hwidth : width blanks = width blanks')
    (raw : List Char) : bareOfRaw? (blanks ++ raw) = bareOfRaw? (blanks' ++ raw) := by
  rcases blank_or_exists_visible raw with hraw | ⟨front, c, rest, hfront, hc, rfl⟩
  · rw [bareOfRaw?_of_blank (List.forall_mem_append.2 ⟨h, hraw⟩),
      bareOfRaw?_of_blank (List.forall_mem_append.2 ⟨h', hraw⟩)]
  · rw [← List.append_assoc, ← List.append_assoc,
      bareOfRaw?_append_visible (List.forall_mem_append.2 ⟨h, hfront⟩) hc,
      bareOfRaw?_append_visible (List.forall_mem_append.2 ⟨h', hfront⟩) hc, width_append,
      width_append, hwidth]

/-- **More blanks in front of a line** make its level deeper, if they are as wide as some levels. -/
theorem bareOfRaw?_indented (h : ∀ b ∈ blanks, isBlank b = true) {k : ℕ}
    (hwidth : width blanks = 2 * k) (raw : List Char) :
    bareOfRaw? (blanks ++ raw) = (bareOfRaw? raw).map (sunk k) := by
  rcases blank_or_exists_visible raw with hraw | ⟨front, c, rest, hfront, hc, rfl⟩
  · have hall : ∀ c ∈ blanks ++ raw, isBlank c = true := List.forall_mem_append.2 ⟨h, hraw⟩
    rw [bareOfRaw?_of_blank hall, bareOfRaw?_of_blank hraw, Option.map_none]
  · have hall : ∀ b ∈ blanks ++ front, isBlank b = true := List.forall_mem_append.2 ⟨h, hfront⟩
    have hlevel : width (blanks ++ front) / 2 = width front / 2 + k := by
      rw [width_append, hwidth]
      omega
    rw [← List.append_assoc, bareOfRaw?_append_visible hall hc, bareOfRaw?_append_visible hfront hc,
      hlevel, Option.map_some, sunk]

/-! ### Other layouts -/

/-- Whether two lines differ in their layout: one comes from the other by a single edit. -/
inductive Relaid : List Char → List Char → Prop where
  /-- Blanks are added at the end. -/
  | trailing (line : List Char) {blanks : List Char} (h : ∀ b ∈ blanks, isBlank b = true) :
    Relaid line (line ++ blanks)
  /-- A tab in front becomes two spaces. -/
  | untabbed {blanks : List Char} (h : ∀ b ∈ blanks, isBlank b = true) (rest : List Char) :
    Relaid (blanks ++ '\t' :: rest) (blanks ++ ' ' :: ' ' :: rest)
  /-- A marker, with a blank and further text behind it, is exchanged. -/
  | remarked {blanks : List Char} (h : ∀ b ∈ blanks, isBlank b = true) {m m' c : Char}
    (hm : isMarker m = true) (hm' : isMarker m' = true) (hc : isBlank c = true) {rest : List Char}
    (hrest : ∃ d ∈ rest, isBlank d = false) :
    Relaid (blanks ++ m :: c :: rest) (blanks ++ m' :: c :: rest)
  /-- More `#` are put in front of a heading. -/
  | deepened {blanks : List Char} (h : ∀ b ∈ blanks, isBlank b = true) (n : ℕ) (rest : List Char) :
    Relaid (blanks ++ '#' :: rest) (blanks ++ List.replicate n '#' ++ '#' :: rest)

/-- Whether a line says nothing: it is blank, or its first visible character marks nothing. -/
def Silent (raw : List Char) : Prop :=
  ∀ c ∈ (trimStart raw).head?, c ≠ '#' ∧ c ≠ '-' ∧ c ≠ '*'

instance (raw : List Char) : Decidable (Silent raw) :=
  Option.decidableForallMem (trimStart raw).head?

theorem isBlank_eq_false_of_isMarker {m : Char} (h : isMarker m = true) : isBlank m = false := by
  rw [isMarker, Bool.or_eq_true, decide_eq_true_eq, decide_eq_true_eq] at h
  rcases h with rfl | rfl <;> decide

theorem classify_marked {m : Char} (hm : isMarker m = true) {c : Char} (hc : isBlank c = true)
    (rest : List Char) :
    classify (m :: c :: rest) = .bullet (String.ofList (trimStart (c :: rest))) := by
  have hne : m ≠ '#' := by
    rintro rfl
    cases hm
  rw [classify, if_neg hne, if_pos hm, stripMarker, hm, hc, Bool.and_self, if_pos rfl]

theorem classify_replicate (n : ℕ) (rest : List Char) :
    classify (List.replicate n '#' ++ '#' :: rest) = classify ('#' :: rest) := by
  cases n with
  | zero => rfl
  | succ n =>
    have hmarks : ∀ c ∈ List.replicate n '#', decide (c = '#') = true := fun c hc =>
      decide_eq_true (List.eq_of_mem_replicate hc)
    rw [List.replicate_succ, List.cons_append, classify, classify, if_pos rfl, if_pos rfl,
      List.dropWhile_append_of_pos hmarks]
    rfl

/-- **Lines that differ in their layout say the same,** at the same level. -/
theorem Relaid.bareOfRaw?_eq {raw raw' : List Char} (h : Relaid raw raw') :
    bareOfRaw? raw' = bareOfRaw? raw := by
  cases h with
  | trailing _ h => exact bareOfRaw?_append_blanks h raw
  | @untabbed blanks h rest =>
    have hblank : isBlank '\t' = true := by decide
    have hspace : isBlank ' ' = true := by decide
    have htab : ∀ b ∈ blanks ++ ['\t'], isBlank b = true :=
      List.forall_mem_append.2 ⟨h, List.forall_mem_singleton.2 hblank⟩
    have hspaces : ∀ b ∈ blanks ++ [' ', ' '], isBlank b = true :=
      List.forall_mem_append.2 ⟨h, List.forall_mem_cons.2 ⟨hspace,
        List.forall_mem_singleton.2 hspace⟩⟩
    have hwidth : width (blanks ++ [' ', ' ']) = width (blanks ++ ['\t']) := by
      rw [width_append, width_append]
      rfl
    simpa using bareOfRaw?_append_congr hspaces htab hwidth rest
  | @remarked blanks h m m' c hm hm' hc rest hrest =>
    have htrim (m : Char) : trimEnd (m :: c :: rest) = m :: c :: trimEnd rest :=
      trimEnd_append_of_visible hrest [m, c]
    rw [bareOfRaw?_append_visible h (isBlank_eq_false_of_isMarker hm),
      bareOfRaw?_append_visible h (isBlank_eq_false_of_isMarker hm'), htrim, htrim,
      classify_marked hm hc, classify_marked hm' hc]
  | @deepened blanks h n rest =>
    have hmark : isBlank '#' = false := by decide
    cases n with
    | zero => rw [List.replicate_zero, List.append_nil]
    | succ n =>
      have htrim : trimEnd ('#' :: (List.replicate n '#' ++ '#' :: rest))
          = List.replicate (n + 1) '#' ++ '#' :: trimEnd rest := by
        rw [← trimEnd_cons_of_visible hmark]
        exact trimEnd_append_of_visible ⟨'#', List.mem_cons_self, hmark⟩
          (List.replicate (n + 1) '#')
      rw [List.append_assoc, List.replicate_succ, List.cons_append,
        bareOfRaw?_append_visible h hmark, bareOfRaw?_append_visible h hmark, htrim,
        classify_replicate, trimEnd_cons_of_visible hmark]

/-- What says nothing is no line, or it is prose. -/
theorem Silent.kind_eq_prose {raw : List Char} (h : Silent raw) :
    ∀ line ∈ bareOfRaw? raw, line.kind = .prose := by
  rcases blank_or_exists_visible raw with hraw | ⟨front, c, rest, hfront, hc, rfl⟩
  · rw [bareOfRaw?_of_blank hraw]
    rintro line ⟨⟩
  · have hstart : trimStart (front ++ c :: rest) = c :: rest := by
      rw [trimStart, List.dropWhile_append_of_pos hfront]
      exact trimStart_of_startsVisible (stops_cons hc rest)
    obtain ⟨hmark, hdash, hstar⟩ := h c (by rw [hstart]; rfl)
    have hmarker : isMarker c = false := by
      rw [isMarker, decide_eq_false hdash, decide_eq_false hstar, Bool.or_self]
    rw [bareOfRaw?_append_visible hfront hc, trimEnd_cons_of_visible hc, classify, if_neg hmark,
      hmarker, if_neg Bool.false_ne_true]
    rintro line ⟨⟩
    rfl

end Line

end OutlineLisp
