import OutlineLisp.Proofs.Tree.Forest
import OutlineLisp.Tree.Program

/-!
# The program and the warnings of an outline

What is built line by line is what the sections of the outline say, each on its own: a section is a
definition with the forest of its bullets, and the warnings are those about the stray bullets and
then those about the sections.

## Main definitions

* `Section.toNode`, `Section.warnings`: the definition of a section, and the warnings about it.
* `Outline.program`, `Outline.warnings`: the same of an outline.

## Main results

* `Builder.finish_foldl_addLine`: what lines add to what has been built before.
* `Reading.ofLines_eq`: the reading of lines is that of their outline.
-/

namespace OutlineLisp

/-- The definition that a section writes. -/
def Section.toNode (s : Section) : Node := s.heading.toNode (Node.forest s.bullets)

theorem Section.children_toNode_eq_nil_iff (s : Section) :
    s.toNode.children = [] ↔ s.bullets = [] := Node.forest_eq_nil_iff

/-- The warning about a heading with given trees below it, if there are none. -/
def Heading.warningOf (d : Document) (h : Heading) (trees : List Node) : List Warning :=
  if trees.isEmpty then [h.emptyWarning d] else []

/-- The warnings about a section. -/
def Section.warnings (d : Document) (s : Section) : List Warning :=
  (if s.heading.name.isEmpty then [s.heading.unnamedWarning d] else [])
    ++ s.heading.warningOf d (Node.forest s.bullets)

namespace Outline

/-- The program tree of an outline. -/
def program (o : Outline) : Node :=
  { kind := .program
    children := o.sections.map Section.toNode
    span := Span.point 1 1 }

/-- Every section is a definition, and nothing else stands below the root. -/
theorem definitions_program (o : Outline) :
    o.program.definitions = o.sections.map Section.toNode := by
  rw [Node.definitions, program, List.filter_eq_self]
  intro n hn
  obtain ⟨s, -, rfl⟩ := List.mem_map.1 hn
  rfl

/-- All warnings about an outline, in the order of the lines. -/
def warnings (d : Document) (o : Outline) : List Warning :=
  o.strays.map (Bullet.strayWarning d) ++ o.sections.flatMap (Section.warnings d)

end Outline

namespace Builder

/-- What has been built after the lines of an outline and then the end. The bullets in front of the
first heading belong to the definition that is being built, if there is one. -/
def after (d : Document) (o : Outline) (b : Builder) : Builder :=
  match b.current with
  | none =>
    { definitions := b.definitions ++ o.sections.map Section.toNode
      current := none
      warnings := (o.warnings d).foldl WarningLog.push b.warnings }
  | some (h, draft) =>
    let trees := (o.strays.foldl Draft.add draft).finish
    { definitions := b.definitions ++ h.toNode trees :: o.sections.map Section.toNode
      current := none
      warnings := (h.warningOf d trees ++ o.sections.flatMap (Section.warnings d)).foldl
        WarningLog.push b.warnings }

theorem after_nil (d : Document) (b : Builder) : b.after d ⟨[], []⟩ = b.finish d := by
  obtain ⟨definitions, current, warnings⟩ := b
  cases current with
  | none => simp [after, finish, Outline.warnings]
  | some c =>
    obtain ⟨h, draft⟩ := c
    by_cases hdraft : draft.finish.isEmpty = true <;>
      simp [after, finish, Heading.warningOf, warn, hdraft]

theorem after_heading (d : Document) (o : Outline) (b : Builder) (h : Heading) :
    ((b.finish d).start d h).after d o
      = b.after d ⟨[], ⟨h, o.strays⟩ :: o.sections⟩ := by
  obtain ⟨definitions, current, warnings⟩ := b
  have hname (b : Builder) : (b.start d h).after d o
      = { definitions := b.definitions ++ (⟨h, o.strays⟩ :: o.sections).map Section.toNode
          current := none
          warnings := ((⟨h, o.strays⟩ :: o.sections).flatMap (Section.warnings d)).foldl
            WarningLog.push b.warnings } := by
    by_cases hn : h.name.isEmpty = true <;>
      simp [start, after, warn, hn, Section.toNode, Section.warnings, Draft.finish_foldl_add]
  rw [hname]
  cases current with
  | none => simp [finish, after, Outline.warnings]
  | some c =>
    obtain ⟨h', draft⟩ := c
    by_cases hdraft : draft.finish.isEmpty = true <;>
      simp [finish, after, Heading.warningOf, warn, hdraft]

theorem after_bullet (d : Document) (o : Outline) (b : Builder) (bullet : Bullet) :
    (b.add d bullet).after d o = b.after d ⟨bullet :: o.strays, o.sections⟩ := by
  obtain ⟨definitions, current, warnings⟩ := b
  cases current with
  | none => simp [add, after, warn, Outline.warnings]
  | some c => simp [add, after]

/-- What lines add to what has been built before is what their outline says. -/
theorem finish_foldl_addLine (d : Document) (lines : List Line) (b : Builder) :
    (lines.foldl (addLine d) b).finish d = b.after d (Outline.ofLines lines) := by
  induction lines generalizing b with
  | nil => exact (after_nil d b).symm
  | cons line lines ih =>
    rw [List.foldl_cons, ih, Outline.ofLines_cons, addLine, Outline.addLine]
    cases line.kind with
    | heading name => exact after_heading d _ b _
    | bullet content => exact after_bullet d _ b _
    | prose => rfl

end Builder

/-- **The reading of lines is that of their outline.** -/
theorem Reading.ofLines_eq (d : Document) (lines : List Line) :
    Reading.ofLines d lines
      = { program := (Outline.ofLines lines).program
          warnings := .ofList ((Outline.ofLines lines).warnings d) } := by
  rw [ofLines, Builder.ofLines, Builder.finish_foldl_addLine, ← WarningLog.foldl_push]
  rfl

end OutlineLisp
