import OutlineLisp.Outline.Line

/-!
# Sections of an outline

A heading opens a section, which holds the bullets up to the next heading. Bullets in front of the
first heading belong to no section, and prose belongs to nothing.

## Main definitions

* `Bullet`, `Heading`: an item of a list, and a heading.
* `Section`, `Outline`: a heading with its items, a whole document.
* `Outline.ofLines`: the outline that lines form.
-/

namespace OutlineLisp

/-- An item of a list: its content, and where it stands. -/
structure Bullet where
  content : String
  indent : Nat
  span : Span
  deriving DecidableEq, Repr

/-- A heading: what it names, and where it stands. -/
structure Heading where
  name : String
  span : Span
  deriving DecidableEq, Repr

/-- A heading and the bullets up to the next heading. -/
structure Section where
  heading : Heading
  bullets : List Bullet
  deriving DecidableEq, Repr

/-- The bullets in front of the first heading, and the sections. -/
structure Outline where
  strays : List Bullet
  sections : List Section
  deriving DecidableEq, Repr

namespace Outline

/-- One line in front of an outline. A heading takes the stray bullets that follow it. -/
def addLine (line : Line) (o : Outline) : Outline :=
  match line.kind with
  | .heading name => ⟨[], ⟨⟨name, line.span⟩, o.strays⟩ :: o.sections⟩
  | .bullet content => ⟨⟨content, line.indent, line.span⟩ :: o.strays, o.sections⟩
  | .prose => o

/-- The outline that lines form. -/
def ofLines (lines : List Line) : Outline := lines.foldr addLine ⟨[], []⟩

@[simp] theorem ofLines_nil : ofLines [] = ⟨[], []⟩ := rfl

@[simp] theorem ofLines_cons (line : Line) (lines : List Line) :
    ofLines (line :: lines) = addLine line (ofLines lines) := rfl

end Outline

end OutlineLisp
