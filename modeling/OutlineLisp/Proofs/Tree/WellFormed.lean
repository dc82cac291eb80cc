import OutlineLisp.Proofs.Number.Canonical
import OutlineLisp.Proofs.Outline.Markers
import OutlineLisp.Proofs.Source.Lines
import OutlineLisp.Proofs.Tree.Positions

/-!
# Well-formed programs

Not every tree can be read from a source text. The names of definitions are tidy, since they stand
on a line of their own. An item is a name or a literal. A name is tidy as well, and is not one that
would be read as a literal. A literal is a number, which is finite and not negative zero, or a text,
which has no backticks and no newlines and would not be read as a number.

Every program that is read is well-formed in this sense.

## Main definitions

* `Item.WellFormed`: the kinds and values of items.
* `Node.WellFormed`: well-formed programs.

## Main results

* `Item.wellFormed_read`: items that are read are well-formed.
* `Reading.wellFormed_ofDocument`: programs that are read are well-formed.
-/

namespace OutlineLisp

open Text

/-! ### Literals -/

namespace Item

variable {cs inner : List Char}

/-- A text is a single pair of backticks around an interior that is not empty and has no
backticks. -/
def IsLiteral (cs : List Char) : Prop :=
  ∃ inner, inner ≠ [] ∧ backtick ∉ inner ∧ cs = backtick :: (inner ++ [backtick])

theorem dropFinal?_eq_some_iff {c : Char} : dropFinal? c cs = some inner ↔ cs = inner ++ [c] := by
  rw [dropFinal?]
  constructor
  · intro h
    split at h
    · next last hlast =>
      obtain ⟨front, rfl⟩ := List.getLast?_eq_some_iff.1 hlast
      split at h
      · next hc =>
        rw [List.dropLast_concat] at h
        rw [hc, Option.some.inj h]
      · cases h
    · cases h
  · rintro rfl
    rw [List.getLast?_concat]
    simp

theorem literal?_eq_some_iff :
    literal? cs = some inner ↔
      inner ≠ [] ∧ backtick ∉ inner ∧ cs = backtick :: (inner ++ [backtick]) := by
  constructor
  · intro h
    rw [literal?.eq_def] at h
    split at h
    · cases h
    · next c rest =>
      split at h
      · next hc =>
        split at h
        · next front hfront =>
          split at h
          · cases h
          · next hcond =>
            obtain rfl := Option.some.inj h
            rw [Bool.or_eq_true, not_or, List.isEmpty_iff, List.contains_iff_mem] at hcond
            exact ⟨hcond.1, hcond.2, by rw [hc, dropFinal?_eq_some_iff.1 hfront]⟩
        · cases h
      · cases h
  · rintro ⟨hne, hmem, rfl⟩
    have hfinal : dropFinal? backtick (inner ++ [backtick]) = some inner :=
      dropFinal?_eq_some_iff.2 rfl
    have hcond : ¬(inner.isEmpty || inner.contains backtick) = true := by
      rw [Bool.or_eq_true, not_or, List.isEmpty_iff, List.contains_iff_mem]
      exact ⟨hne, hmem⟩
    simp only [literal?, hfinal, if_neg hcond, if_true]

theorem literal?_eq_none_iff : literal? cs = none ↔ ¬IsLiteral cs := by
  rw [Option.eq_none_iff_forall_ne_some]
  constructor
  · rintro h ⟨inner, hinner⟩
    exact h inner (literal?_eq_some_iff.2 hinner)
  · intro h inner hinner
    exact h ⟨inner, literal?_eq_some_iff.1 hinner⟩

/-! ### Quotes -/

theorem unquote_subset (cs : List Char) : unquote cs ⊆ cs := by
  rw [unquote]
  split
  · exact fun c hc => List.mem_of_mem_tail (List.dropLast_subset _ hc)
  · exact List.Subset.refl cs

/-- The quotes that were put around a text are removed. -/
theorem unquote_quoted (cs : List Char) : unquote ('\x22' :: (cs ++ ['\x22'])) = cs := by
  have hquoted : isQuotedBy '\x22' ('\x22' :: (cs ++ ['\x22'])) = true := by
    rw [isQuotedBy, ← List.cons_append, List.getLast?_concat]
    rfl
  rw [unquote, hquoted, Bool.true_or, if_pos rfl, List.tail_cons, List.dropLast_concat]

/-- Without quotes there is nothing to remove. -/
theorem unquote_of_notMem (hdouble : '\x22' ∉ cs) (hsingle : '\x27' ∉ cs) : unquote cs = cs := by
  have hquoted {q : Char} (hq : q ∉ cs) : isQuotedBy q cs = false := by
    rw [isQuotedBy, Bool.and_eq_false_iff]
    refine .inl (beq_eq_false_iff_ne.2 fun h => hq (List.mem_of_mem_head? h))
  rw [unquote, hquoted hdouble, hquoted hsingle, Bool.or_self, if_neg Bool.false_ne_true]

/-! ### Items -/

/-- The kinds and values of items. -/
inductive WellFormed : NodeKind → Option Atom → Prop where
  /-- A name. -/
  | name {s : String} (tidy : Tidy s.toList) (ne_nil : s.toList ≠ [])
      (notLiteral : ¬IsLiteral s.toList) : WellFormed .symbol (some (.text s))
  /-- A number. -/
  | number {x : Float} (isFinite : x.isFinite = true) (ne_negativeZero : x ≠ Number.negativeZero) :
      WellFormed .literal (some (.number x))
  /-- A text that is no number. -/
  | text {s : String} (backtick_notMem : backtick ∉ s.toList) (newline_notMem : '\n' ∉ s.toList)
      (notCanonical : Number.canonical? s.toList = none) : WellFormed .literal (some (.text s))

theorem wellFormed_literalValue (hbacktick : backtick ∉ inner) (hnewline : '\n' ∉ inner) :
    WellFormed .literal (some (literalValue inner)) := by
  rw [literalValue]
  split
  · next x hx =>
    obtain ⟨hfinite, hzero, -⟩ := Number.canonical?_eq_some_iff.1 hx
    exact .number hfinite hzero
  · next hnone =>
    refine .text ?_ ?_ ?_ <;> rw [String.toList_ofList]
    · exact fun hmem => hbacktick (unquote_subset inner hmem)
    · exact fun hmem => hnewline (unquote_subset inner hmem)
    · exact hnone

/-- **Items that are read are well-formed.** -/
theorem wellFormed_read (htidy : Tidy cs) (hne : cs ≠ []) :
    WellFormed (read cs).1 (some (read cs).2) := by
  have hmarker : Tidy (Line.stripMarker cs) := htidy.stripMarker
  have htext : trim (Line.stripMarker (trim cs)) = Line.stripMarker cs := by
    rw [htidy.trimmed, hmarker.trimmed]
  rw [read, htext]
  split
  · next inner hinner =>
    obtain ⟨-, hbacktick, hcs⟩ := literal?_eq_some_iff.1 hinner
    have hsubset : inner ⊆ Line.stripMarker cs := by
      rw [hcs]
      exact fun c hc => List.mem_cons_of_mem _ (List.mem_append_left _ hc)
    show WellFormed .literal (some (literalValue inner))
    exact wellFormed_literalValue hbacktick fun hmem => hmarker.newline_notMem (hsubset hmem)
  · next hnone =>
    refine .name ?_ ?_ ?_ <;> rw [String.toList_ofList]
    · exact hmarker
    · exact Line.stripMarker_ne_nil hne htidy.endsVisible
    · exact literal?_eq_none_iff.1 hnone

end Item

/-! ### Programs -/

namespace Node

/-- A well-formed definition. -/
structure WellFormedDefinition (d : Node) : Prop where
  kind : d.kind = .definition
  /-- It has a tidy name. -/
  name : ∃ s, d.value = some (.text s) ∧ Tidy s.toList
  /-- Everything below it is an item. -/
  items : ∀ n ∈ walkAll d.children, Item.WellFormed n.kind n.value

/-- A well-formed program. -/
structure WellFormed (p : Node) : Prop where
  kind : p.kind = .program
  value : p.value = none
  definitions : ∀ d ∈ p.children, d.WellFormedDefinition

/-! ### Positions do not matter -/

/-- What a node says, wherever it stands. -/
def said (n : Node) : NodeKind × Option Atom := (n.kind, n.value)

theorem forall_wellFormed_iff (ns : List Node) :
    (∀ n ∈ ns, Item.WellFormed n.kind n.value) ↔
      ∀ s ∈ ns.map said, Item.WellFormed s.1 s.2 := by
  rw [List.forall_mem_map]
  rfl

/-- A definition is well-formed or not by what its nodes say. -/
theorem wellFormedDefinition_congr {d e : Node} (h : d.said = e.said)
    (hwalk : (walkAll d.children).map said = (walkAll e.children).map said) :
    d.WellFormedDefinition ↔ e.WellFormedDefinition := by
  obtain ⟨hkind, hvalue⟩ := Prod.mk.inj h
  have hitems : (∀ n ∈ walkAll d.children, Item.WellFormed n.kind n.value) ↔
      ∀ n ∈ walkAll e.children, Item.WellFormed n.kind n.value := by
    rw [forall_wellFormed_iff, forall_wellFormed_iff, hwalk]
  constructor
  · rintro ⟨hk, hname, hi⟩
    exact ⟨by rw [← hkind, hk], by rwa [hvalue] at hname, hitems.1 hi⟩
  · rintro ⟨hk, hname, hi⟩
    exact ⟨by rw [hkind, hk], by rwa [hvalue], hitems.2 hi⟩

/-- A program is well-formed or not by what it says itself and by its definitions. -/
theorem wellFormed_congr {p q : Node} {f : Node → Node} (h : q.said = p.said)
    (hchildren : q.children = p.children.map f)
    (hf : ∀ d ∈ p.children, (f d).WellFormedDefinition ↔ d.WellFormedDefinition) :
    q.WellFormed ↔ p.WellFormed := by
  obtain ⟨hkind, hvalue⟩ := Prod.mk.inj h
  have hdefinitions : (∀ d ∈ q.children, d.WellFormedDefinition) ↔
      ∀ d ∈ p.children, d.WellFormedDefinition := by
    rw [hchildren, List.forall_mem_map]
    exact forall₂_congr hf
  constructor
  · rintro ⟨hk, hv, hd⟩
    exact ⟨by rw [← hkind, hk], by rw [← hvalue, hv], hdefinitions.1 hd⟩
  · rintro ⟨hk, hv, hd⟩
    exact ⟨by rw [hkind, hk], by rw [hvalue, hv], hdefinitions.2 hd⟩

theorem said_bare (n : Node) : n.bare.said = n.said := by
  rw [said, kind_bare, value_bare, said]

theorem wellFormed_bare_iff {p : Node} : p.bare.WellFormed ↔ p.WellFormed := by
  have hchildren : p.bare.children = p.children.map bare := by rw [children_bare, bareAll_eq_map]
  refine wellFormed_congr (said_bare p) hchildren fun d _ => ?_
  refine wellFormedDefinition_congr (said_bare d) ?_
  rw [children_bare, walkAll_bareAll, List.map_map]
  exact List.map_congr_left fun n _ => said_bare n

end Node

/-! ### Programs that are read -/

/-- The name of a section is tidy, and the contents of its bullets are. -/
structure Section.Tidy (s : Section) : Prop where
  name : Text.Tidy s.heading.name.toList
  contents : ∀ b ∈ s.bullets, Text.Tidy b.content.toList ∧ b.content.toList ≠ []

theorem Section.Tidy.wellFormedDefinition {s : Section} (h : s.Tidy) :
    s.toNode.WellFormedDefinition where
  kind := rfl
  name := ⟨_, rfl, h.name⟩
  items n hn := by
    obtain ⟨b, hb, hkind, hvalue⟩ := Node.exists_read_of_mem_walkAll_forest hn
    rw [hkind, hvalue]
    exact Item.wellFormed_read (h.contents b hb).1 (h.contents b hb).2

namespace Outline

theorem tidy_ofLines {lines : List Line} (h : ∀ line ∈ lines, line.kind.Tidy) :
    (∀ b ∈ (ofLines lines).strays, Text.Tidy b.content.toList ∧ b.content.toList ≠ []) ∧
      ∀ s ∈ (ofLines lines).sections, s.Tidy := by
  induction lines with
  | nil => exact ⟨List.forall_mem_nil _, List.forall_mem_nil _⟩
  | cons line lines ih =>
    obtain ⟨hstrays, hsections⟩ := ih fun l hl => h l (List.mem_cons_of_mem line hl)
    have hline : line.kind.Tidy := h line List.mem_cons_self
    rw [ofLines_cons, addLine]
    cases hk : line.kind with
    | heading name =>
      rw [hk] at hline
      refine ⟨List.forall_mem_nil _, ?_⟩
      intro s hs
      rcases List.mem_cons.1 hs with rfl | hs
      · exact ⟨hline, hstrays⟩
      · exact hsections s hs
    | bullet content =>
      rw [hk] at hline
      refine ⟨?_, hsections⟩
      intro b hb
      rcases List.mem_cons.1 hb with rfl | hb
      · exact hline
      · exact hstrays b hb
    | prose => exact ⟨hstrays, hsections⟩

theorem wellFormed_program {o : Outline} (h : ∀ s ∈ o.sections, s.Tidy) :
    o.program.WellFormed where
  kind := rfl
  value := rfl
  definitions d hd := by
    obtain ⟨s, hs, rfl⟩ := List.mem_map.1 hd
    exact (h s hs).wellFormedDefinition

end Outline

theorem Line.tidy_of_mem_ofDocument {d : Document} {line : Line} (h : line ∈ ofDocument d) :
    line.kind.Tidy := by
  obtain ⟨number, raw, hmem, hline⟩ := mem_ofDocument_iff.1 h
  obtain ⟨-, rfl⟩ := ofRaw?_eq_some_iff.1 hline
  obtain ⟨-, hfound⟩ := Document.mem_numberedLines_iff.1 hmem
  exact tidy_classify (tidy_trim (Document.newline_notMem_of_mem_lines
    (Document.mem_lines_of_line? hfound)))

/-- **Programs that are read are well-formed.** -/
theorem Reading.wellFormed_ofDocument (d : Document) : (ofDocument d).program.WellFormed := by
  rw [ofDocument, ofLines_eq]
  exact Outline.wellFormed_program
    (Outline.tidy_ofLines fun _ hline => Line.tidy_of_mem_ofDocument hline).2

end OutlineLisp
