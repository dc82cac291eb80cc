import OutlineLisp.Outline.Section
import OutlineLisp.Tree.Item
import OutlineLisp.Warning

/-!
# Building a program line by line

A program is built while its lines are read. Below the last heading there is a *draft*: the trees
that are complete, and the items that may still get operands, each of them inside the next. A bullet
first closes the items that are not shallower than itself, the innermost first; a closed item goes
to the item that it is inside of, or else becomes a complete tree. Then the bullet opens an item of
its own. A heading closes all items, and so does the end.

## Main definitions

* `Draft`, `Draft.add`: a definition that is being built, and the next bullet.
* `Builder`, `Builder.addLine`: a program that is being built, and the next line.
-/

namespace OutlineLisp

/-- The node of a bullet with given children. -/
def Bullet.toNode (b : Bullet) (children : List Node) : Node :=
  { kind := (Item.read b.content.toList).1
    value := some (Item.read b.content.toList).2
    children
    indent := b.indent
    span := b.span }

/-- The definition of a heading with given children. -/
def Heading.toNode (h : Heading) (children : List Node) : Node :=
  { kind := .definition, value := some (.text h.name), children, span := h.span }

/-! ### Warnings -/

/-- The warning about a span of a document. It shows the line on which the span starts. -/
def Document.warning (d : Document) (code : UInt16) (message : String) (span : Span) : Warning :=
  .make d.name code message span (d.sourceLine span)

/-- The warning about a bullet in front of the first heading. -/
def Bullet.strayWarning (d : Document) (b : Bullet) : Warning :=
  d.warning WarningCode.strayBullet
    ("list item '" ++ b.content ++ "' appears before any definition and is ignored") b.span

namespace Heading

/-- The warning about a heading without a name. -/
def unnamedWarning (d : Document) (h : Heading) : Warning :=
  d.warning WarningCode.unnamedHeading "heading has no definition name" h.span

/-- The warning about a heading without bullets. -/
def emptyWarning (d : Document) (h : Heading) : Warning :=
  d.warning WarningCode.emptyDefinition
    ("definition '" ++ h.name ++ "' has no body and will not be registered") h.span

end Heading

/-! ### Definitions that are being built -/

/-- The trees of a definition that are complete, and its open items. -/
structure Draft where
  /-- The trees that are complete, in order. -/
  trees : List Node := []
  /-- The items that may still get children, the innermost first. -/
  opened : List Node := []

namespace Draft

/-- One more node inside the innermost open item, or among the trees if no item is open. -/
def hang (d : Draft) (n : Node) : Draft :=
  match d.opened with
  | [] => { d with trees := d.trees ++ [n] }
  | item :: opened => { d with opened := { item with children := item.children ++ [n] } :: opened }

theorem length_opened_hang (d : Draft) (n : Node) :
    (d.hang n).opened.length = d.opened.length := by
  obtain ⟨trees, opened⟩ := d
  cases opened <;> rfl

/-- Close the open items that are at an indentation level or deeper. -/
def close (level : Nat) : Draft → Draft
  | ⟨trees, []⟩ => ⟨trees, []⟩
  | ⟨trees, item :: opened⟩ =>
    if level ≤ item.indent then close level (hang ⟨trees, opened⟩ item)
    else ⟨trees, item :: opened⟩
termination_by d => d.opened.length
decreasing_by
  rw [length_opened_hang]
  exact Nat.lt_succ_self _

/-- The next bullet: it is inside the innermost item that is shallower. -/
def add (d : Draft) (b : Bullet) : Draft :=
  let d := d.close b.indent
  { d with opened := b.toNode [] :: d.opened }

/-- The trees of a draft to which nothing is added any more. -/
def finish (d : Draft) : List Node := (d.close 0).trees

end Draft

/-! ### Programs that are being built -/

/-- What has been built after some lines. -/
structure Builder where
  /-- The definitions that are complete, in order. -/
  definitions : List Node := []
  /-- The last heading, and what has been built below it. -/
  current : Option (Heading × Draft) := none
  warnings : WarningLog := {}

namespace Builder

/-- One more warning. -/
def warn (b : Builder) (w : Warning) : Builder := { b with warnings := b.warnings.push w }

/-- Complete the definition that is being built. -/
def finish (d : Document) (b : Builder) : Builder :=
  match b.current with
  | none => b
  | some (h, draft) =>
    let b := if draft.finish.isEmpty then b.warn (h.emptyWarning d) else b
    { b with definitions := b.definitions ++ [h.toNode draft.finish], current := none }

/-- Begin the definition of a heading. -/
def start (d : Document) (b : Builder) (h : Heading) : Builder :=
  let b := if h.name.isEmpty then b.warn (h.unnamedWarning d) else b
  { b with current := some (h, {}) }

/-- Add a bullet to the definition that is being built. -/
def add (d : Document) (b : Builder) (bullet : Bullet) : Builder :=
  match b.current with
  | none => b.warn (bullet.strayWarning d)
  | some (h, draft) => { b with current := some (h, draft.add bullet) }

/-- The next line. -/
def addLine (d : Document) (b : Builder) (line : Line) : Builder :=
  match line.kind with
  | .heading name => (b.finish d).start d ⟨name, line.span⟩
  | .bullet content => b.add d ⟨content, line.indent, line.span⟩
  | .prose => b

/-- What has been built after all lines. -/
def ofLines (d : Document) (lines : List Line) : Builder :=
  (lines.foldl (addLine d) {}).finish d

end Builder

end OutlineLisp
