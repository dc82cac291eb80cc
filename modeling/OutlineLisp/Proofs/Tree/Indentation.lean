import Mathlib.Data.List.Forall2
import OutlineLisp.Proofs.Tree.Sections
import OutlineLisp.Proofs.Tree.Walk

/-!
# The tree that indentation describes

What a program tree must look like is said here by looking at lines only: a heading line opens a
section, the section has the bullets of the lines up to the next heading line, and the parent of a
bullet is the last one before it in the section that is shallower. The program that is read from
lines is of this kind, for all lines whatsoever.

## Main definitions

* `Section.ofTail?`: the section that a list of lines begins with.
* `Section.Describes`: what a definition has to do with a section.

## Main results

* `Outline.ofLines_sections`: sections by looking at lines.
* `Reading.describes_ofLines`: the program of lines is what the indentation describes.
-/

namespace OutlineLisp

namespace Line

/-- Whether a line opens a section. -/
def isHeading (line : Line) : Bool :=
  match line.kind with
  | .heading _ => true
  | _ => false

/-- The bullet of a line, if it has one. -/
def bullet? (line : Line) : Option Bullet :=
  match line.kind with
  | .bullet content => some ⟨content, line.indent, line.span⟩
  | _ => none

/-- The bullets up to the next heading line. -/
def bulletsBefore (lines : List Line) : List Bullet :=
  (lines.takeWhile fun line => !line.isHeading).filterMap bullet?

end Line

/-- The section of a heading line and the lines after it, if lines begin with a heading line. -/
def Section.ofTail? : List Line → Option Section
  | [] => none
  | line :: lines =>
    match line.kind with
    | .heading name => some ⟨⟨name, line.span⟩, Line.bulletsBefore lines⟩
    | _ => none

namespace Outline

theorem ofLines_strays (lines : List Line) : (ofLines lines).strays = Line.bulletsBefore lines := by
  induction lines with
  | nil => rfl
  | cons line lines ih =>
    rw [ofLines_cons, addLine, Line.bulletsBefore, List.takeWhile_cons]
    cases h : line.kind with
    | heading name => simp [Line.isHeading, h]
    | bullet content => simp [Line.isHeading, Line.bullet?, h, ih, Line.bulletsBefore]
    | prose => simp [Line.isHeading, Line.bullet?, h, ih, Line.bulletsBefore]

/-- The sections are those of the heading lines, in their order. -/
theorem ofLines_sections (lines : List Line) :
    (ofLines lines).sections = lines.tails.filterMap Section.ofTail? := by
  induction lines with
  | nil => rfl
  | cons line lines ih =>
    rw [ofLines_cons, addLine, List.tails, List.filterMap_cons, Section.ofTail?]
    cases line.kind with
    | heading name => simp [ofLines_strays, ih]
    | bullet content => simp [ih]
    | prose => simp [ih]

end Outline

open Node in
/-- What a definition has to do with the section that describes it. -/
structure Section.Describes (s : Section) (d : Node) : Prop where
  /-- It has the name of the heading and stands in its place. -/
  alone : d.alone
    = { kind := .definition, value := some (.text s.heading.name), span := s.heading.span }
  /-- Below it stand the items of the bullets, each once and in order, with what they say and at
  their levels and places. -/
  items : (walkAll d.children).map Node.alone = s.bullets.map fun b =>
    { kind := (Item.read b.content.toList).1, value := some (Item.read b.content.toList).2
      indent := b.indent, span := b.span }
  /-- The parent of each item is the last one before it that is shallower, or the definition. -/
  parents : ∀ i : Nat, (parentsAll none 0 d.children)[i]?
    = s.bullets[i]?.map fun b => lastBelow b.indent ((s.bullets.take i).map Bullet.indent)
  /-- Children are deeper than their parents. -/
  deeper : ∀ n ∈ walkAll d.children, ∀ c ∈ n.children, n.indent < c.indent
  /-- There are no definitions below it. -/
  noDefinition : ∀ n ∈ walkAll d.children, n.kind ≠ .definition

/-- An item is a literal or a name. -/
theorem Item.read_kind (cs : List Char) : (read cs).1 = .literal ∨ (read cs).1 = .symbol := by
  rw [read]
  split
  · exact .inl rfl
  · exact .inr rfl

namespace Section

open Node

theorem describes_toNode (s : Section) : s.Describes s.toNode where
  alone := rfl
  items := map_alone_walkAll_forest s.bullets
  parents i := by
    have h : parentsAll none 0 s.toNode.children = enclosing [] (s.bullets.map Bullet.indent) := by
      refine (parentsAll_forest none 0 s.bullets).trans ?_
      conv_rhs => rw [← List.map_id (enclosing [] (s.bullets.map Bullet.indent))]
      refine List.map_congr_left fun p _ => ?_
      cases p with
      | none => rfl
      | some i => simp
    rw [h, getElem?_enclosing, List.getElem?_map, Option.map_map, List.nil_append, List.map_take]
    rfl
  deeper _ hn _ hc := indent_lt_of_mem_walkAll_forest hn hc
  noDefinition n hn := by
    obtain ⟨b, -, hkind, -⟩ := exists_read_of_mem_walkAll_forest hn
    rw [hkind]
    rcases Item.read_kind b.content.toList with h | h <;> rw [h] <;> decide

end Section

namespace Reading

/-- **The program of lines is what the indentation describes:** below the root there is one
definition for every heading line, in their order, and each is what the bullets up to the next
heading line describe. Nothing else becomes a node. -/
theorem describes_ofLines (d : Document) (lines : List Line) :
    (ofLines d lines).program.alone = { kind := .program, span := Span.point 1 1 } ∧
      List.Forall₂ Section.Describes (lines.tails.filterMap Section.ofTail?)
        (ofLines d lines).program.children := by
  rw [ofLines_eq]
  refine ⟨rfl, ?_⟩
  rw [← Outline.ofLines_sections]
  refine List.forall₂_map_right_iff.2 (List.forall₂_same.2 fun s _ => s.describes_toNode)

end Reading

end OutlineLisp
