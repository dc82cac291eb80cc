import Mathlib.Data.List.Basic
import OutlineLisp.Proofs.Tree.Sections
import OutlineLisp.Proofs.Tree.Walk

/-!
# Where things stand

What is made of lines has the spans of these lines. So if the lines of a document stand elsewhere,
the trees and the warnings are the same and stand elsewhere, too; and what holds of the spans of all
lines holds of the spans of all nodes and warnings.

## Main definitions

* `Line.moved`, `Node.moved`, `Warning.moved`: with other spans.
* `Outline.Placed`: a property of all spans of an outline.

## Main results

* `Node.forest_map_moved`: the trees of bullets that stand elsewhere.
* `Outline.children_program_moved`, `Outline.warnings_moved`: what an outline says elsewhere.
* `Outline.Placed.walkAll`, `Outline.Placed.warnings`: where nodes and warnings stand.
-/

namespace OutlineLisp

/-! ### Other spans -/

section Moved

variable (f : Span → Span)

/-- A line that stands elsewhere. -/
def Line.moved (line : Line) : Line := { line with span := f line.span }

/-- A bullet that stands elsewhere. -/
def Bullet.moved (b : Bullet) : Bullet := { b with span := f b.span }

/-- A heading that stands elsewhere. -/
def Heading.moved (h : Heading) : Heading := { h with span := f h.span }

/-- A section that stands elsewhere. -/
def Section.moved (s : Section) : Section := ⟨s.heading.moved f, s.bullets.map (Bullet.moved f)⟩

/-- An outline that stands elsewhere. -/
def Outline.moved (o : Outline) : Outline :=
  ⟨o.strays.map (Bullet.moved f), o.sections.map (Section.moved f)⟩

/-- A warning about something that stands elsewhere. -/
def Warning.moved (w : Warning) : Warning := { w with span := f w.span }

namespace Node

mutual

/-- A tree that stands elsewhere. -/
def moved : Node → Node
  | ⟨kind, value, children, indent, span⟩ => ⟨kind, value, movedAll children, indent, f span⟩

/-- Trees that stand elsewhere. -/
def movedAll : List Node → List Node
  | [] => []
  | n :: ns => moved n :: movedAll ns

end

theorem movedAll_eq_map (ns : List Node) : movedAll f ns = ns.map (moved f) := by
  induction ns with
  | nil => rfl
  | cons n ns ih => rw [movedAll, ih, List.map_cons]

/-! ### Trees -/

theorem deeper_map_moved (level : ℕ) (bs : List Bullet) :
    deeper level (bs.map (Bullet.moved f)) = (deeper level bs).map (Bullet.moved f) :=
  List.takeWhile_map

theorem notDeeper_map_moved (level : ℕ) (bs : List Bullet) :
    notDeeper level (bs.map (Bullet.moved f)) = (notDeeper level bs).map (Bullet.moved f) :=
  List.dropWhile_map

/-- **The trees of bullets that stand elsewhere** stand there, too. -/
theorem forest_map_moved (bs : List Bullet) :
    forest (bs.map (Bullet.moved f)) = movedAll f (forest bs) := by
  induction bs using forest.induct with
  | case1 => rw [List.map_nil, forest_nil, movedAll]
  | case2 b bs ihDeeper ihNotDeeper =>
    have hindent : (b.moved f).indent = b.indent := rfl
    rw [List.map_cons, forest_cons, hindent, deeper_map_moved, notDeeper_map_moved, ihDeeper,
      ihNotDeeper, forest_cons, movedAll]
    rfl

end Node

/-! ### Sections and outlines -/

theorem Section.toNode_moved (s : Section) : (s.moved f).toNode = s.toNode.moved f := by
  rw [toNode, moved, Node.forest_map_moved]
  rfl

namespace Outline

/-- Without stray bullets there are none elsewhere. -/
theorem strays_moved_eq_nil {o : Outline} (h : o.strays = []) : (o.moved f).strays = [] := by
  rw [moved, h, List.map_nil]

/-- The outline of lines that stand elsewhere. -/
theorem ofLines_map_moved (lines : List Line) :
    ofLines (lines.map (Line.moved f)) = (ofLines lines).moved f := by
  induction lines with
  | nil => rfl
  | cons line lines ih =>
    have hkind : (line.moved f).kind = line.kind := rfl
    rw [List.map_cons, ofLines_cons, ofLines_cons, ih, addLine, addLine, hkind]
    cases line.kind <;> rfl

/-- **The definitions of an outline that stands elsewhere** stand there, too. -/
theorem children_program_moved (o : Outline) :
    (o.moved f).program.children = o.program.children.map (Node.moved f) := by
  rw [program, program, moved, List.map_map, List.map_map]
  exact List.map_congr_left fun s _ => s.toNode_moved f

end Outline

end Moved

/-! ### Properties of spans -/

/-- Whether all spans of an outline have a property. -/
structure Outline.Placed (P : Span → Prop) (o : Outline) : Prop where
  strays : ∀ b ∈ o.strays, P b.span
  headings : ∀ s ∈ o.sections, P s.heading.span
  bullets : ∀ s ∈ o.sections, ∀ b ∈ s.bullets, P b.span

/-- The warnings about a section are about its heading. -/
theorem Section.eq_of_mem_warnings {d : Document} {s : Section} {w : Warning}
    (h : w ∈ s.warnings d) :
    w = s.heading.unnamedWarning d ∨ w = s.heading.emptyWarning d := by
  rcases List.mem_append.1 h with hname | hempty
  · split at hname
    · exact .inl (List.mem_singleton.1 hname)
    · cases hname
  · rw [Heading.warningOf] at hempty
    split at hempty
    · exact .inr (List.mem_singleton.1 hempty)
    · cases hempty

namespace Outline

variable {P : Span → Prop}

/-- What holds of the spans of all lines holds of the spans of their outline. -/
theorem placed_ofLines {lines : List Line} (h : ∀ line ∈ lines, P line.span) :
    (ofLines lines).Placed P := by
  induction lines with
  | nil => exact ⟨List.forall_mem_nil _, List.forall_mem_nil _, List.forall_mem_nil _⟩
  | cons line lines ih =>
    obtain ⟨hline, hlines⟩ := List.forall_mem_cons.1 h
    obtain ⟨hstrays, hheadings, hbullets⟩ := ih hlines
    rw [ofLines_cons, addLine]
    cases line.kind with
    | heading name =>
      exact ⟨List.forall_mem_nil _, List.forall_mem_cons.2 ⟨hline, hheadings⟩,
        List.forall_mem_cons.2 ⟨hstrays, hbullets⟩⟩
    | bullet content => exact ⟨List.forall_mem_cons.2 ⟨hline, hstrays⟩, hheadings, hbullets⟩
    | prose => exact ⟨hstrays, hheadings, hbullets⟩

namespace Placed

variable {o : Outline}

/-- **Nodes below the root** have the spans of headings and of bullets. -/
theorem walkAll (h : o.Placed P) : ∀ n ∈ Node.walkAll o.program.children, P n.span := by
  intro n hn
  obtain ⟨definition, hdefinition, hmem⟩ := Node.exists_of_mem_walkAll hn
  obtain ⟨s, hs, rfl⟩ := List.mem_map.1 hdefinition
  rcases hmem with rfl | hbelow
  · exact h.headings s hs
  · obtain ⟨b, hb, hspan⟩ := Node.exists_span_eq_of_mem_walkAll_forest hbelow
    rw [hspan]
    exact h.bullets s hs b hb

/-- **Warnings** have the spans of headings and of bullets. -/
theorem warnings (h : o.Placed P) (d : Document) : ∀ w ∈ o.warnings d, P w.span := by
  intro w hw
  rcases List.mem_append.1 hw with hstray | hsection
  · obtain ⟨b, hb, rfl⟩ := List.mem_map.1 hstray
    exact h.strays b hb
  · obtain ⟨s, hs, hw⟩ := List.mem_flatMap.1 hsection
    rcases s.eq_of_mem_warnings hw with rfl | rfl
    · exact h.headings s hs
    · exact h.headings s hs

end Placed

end Outline

/-! ### Warnings about what stands elsewhere -/

section Shown

variable {f : Span → Span} {d d' : Document}

/-- A warning about what stands elsewhere in another document, if it shows the same line there. -/
theorem Document.warning_moved {span : Span}
    (hline : d'.sourceLine (f span) = d.sourceLine span) (hname : d'.name = d.name)
    (code : UInt16) (message : String) :
    d'.warning code message (f span) = (d.warning code message span).moved f := by
  rw [warning, warning, hname, hline]
  rfl

theorem Section.warnings_moved {s : Section}
    (hline : d'.sourceLine (f s.heading.span) = d.sourceLine s.heading.span)
    (hname : d'.name = d.name) :
    (s.moved f).warnings d' = (s.warnings d).map (Warning.moved f) := by
  have hempty : (Node.movedAll f (Node.forest s.bullets)).isEmpty
      = (Node.forest s.bullets).isEmpty := by
    rw [Node.movedAll_eq_map, List.isEmpty_map]
  have hwarning (code : UInt16) (message : String) :
      d'.warning code message (s.heading.moved f).span
        = (d.warning code message s.heading.span).moved f :=
    Document.warning_moved hline hname code message
  rw [warnings, warnings, moved, Node.forest_map_moved, Heading.warningOf, Heading.warningOf,
    hempty, List.map_append, Heading.unnamedWarning, Heading.emptyWarning, hwarning, hwarning,
    apply_ite (List.map (Warning.moved f)), apply_ite (List.map (Warning.moved f))]
  rfl

namespace Outline

/-- **The warnings about an outline that stands elsewhere** are about what stands there, if the same
lines are shown. -/
theorem warnings_moved {o : Outline}
    (hlines : o.Placed fun span => d'.sourceLine (f span) = d.sourceLine span)
    (hname : d'.name = d.name) :
    (o.moved f).warnings d' = (o.warnings d).map (Warning.moved f) := by
  rw [warnings, warnings, moved, List.map_append, List.map_map, List.map_map, List.flatMap_map,
    List.map_flatMap]
  congr 1
  · exact List.map_congr_left fun b hb =>
      Document.warning_moved (hlines.strays b hb) hname WarningCode.strayBullet _
  · exact List.flatMap_congr fun s hs => Section.warnings_moved (hlines.headings s hs) hname

/-- What stands where it is. -/
theorem moved_id (o : Outline) : o.moved id = o := by
  have hbullet : Bullet.moved id = id := rfl
  have hsection : Section.moved id = id := by
    funext s
    rw [Section.moved, hbullet, List.map_id]
    rfl
  rw [moved, hbullet, hsection, List.map_id, List.map_id]

/-- In another document there are the same warnings, if the same lines are shown. -/
theorem warnings_congr {o : Outline}
    (hlines : o.Placed fun span => d'.sourceLine span = d.sourceLine span)
    (hname : d'.name = d.name) :
    o.warnings d' = o.warnings d := by
  have hmoved : (o.moved id).warnings d' = (o.warnings d).map (Warning.moved id) :=
    warnings_moved hlines hname
  have hwarning : Warning.moved id = id := rfl
  rwa [moved_id, hwarning, List.map_id] at hmoved

end Outline

end Shown

end OutlineLisp
