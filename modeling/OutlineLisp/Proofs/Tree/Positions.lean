import OutlineLisp.Proofs.Source.Index
import OutlineLisp.Proofs.Tree.Sections
import OutlineLisp.Proofs.Tree.Walk

/-!
# What positions have no influence on

Lines, bullets and nodes record where in a document they stand. Everything that is made of lines is
made without looking at this, so it may be forgotten before as well as after. The indentation level
is no position in this sense, since it decides which trees bullets form.

## Main definitions

* `Line.bare`, `Bullet.bare`, `Outline.bare`, `Node.bare`: without positions.

## Main results

* `Node.bareAll_forest`, `Outline.bare_program`: trees without positions.
* `Reading.bare_program_ofDocument`: the tree of a document, without positions.
-/

namespace OutlineLisp

/-! ### Without positions -/

/-- A line without its position. -/
def Line.bare (line : Line) : Line := { line with span := {} }

/-- A bullet without its position. -/
def Bullet.bare (b : Bullet) : Bullet := { b with span := {} }

/-- A heading without its position. -/
def Heading.bare (h : Heading) : Heading := { h with span := {} }

/-- A section without positions. -/
def Section.bare (s : Section) : Section := ⟨s.heading.bare, s.bullets.map Bullet.bare⟩

/-- An outline without positions. -/
def Outline.bare (o : Outline) : Outline :=
  ⟨o.strays.map Bullet.bare, o.sections.map Section.bare⟩

namespace Node

mutual

/-- A tree without positions. -/
def bare : Node → Node
  | ⟨kind, value, children, indent, _⟩ => { kind, value, children := bareAll children, indent }

/-- Trees without positions. -/
def bareAll : List Node → List Node
  | [] => []
  | n :: ns => bare n :: bareAll ns

end

@[simp] theorem bareAll_nil : bareAll [] = [] := rfl

theorem bareAll_cons (n : Node) (ns : List Node) : bareAll (n :: ns) = bare n :: bareAll ns := rfl

theorem bareAll_eq_map (ns : List Node) : bareAll ns = ns.map bare := by
  induction ns with
  | nil => rfl
  | cons n ns ih => rw [bareAll_cons, ih, List.map_cons]

theorem bare_eq (n : Node) :
    n.bare = { kind := n.kind, value := n.value, children := bareAll n.children
               indent := n.indent } := by
  cases n
  rfl

@[simp] theorem kind_bare (n : Node) : n.bare.kind = n.kind := by rw [bare_eq]

@[simp] theorem value_bare (n : Node) : n.bare.value = n.value := by rw [bare_eq]

@[simp] theorem children_bare (n : Node) : n.bare.children = bareAll n.children := by rw [bare_eq]

/-- A walk visits the same nodes, whether or not positions are known. -/
theorem walkAll_bareAll (ns : List Node) : walkAll (bareAll ns) = (walkAll ns).map bare := by
  match ns with
  | [] => rfl
  | ⟨kind, value, children, indent, span⟩ :: ns =>
    rw [bareAll_cons, walkAll_cons, walkAll_cons, children_bare, List.map_cons, List.map_append,
      walkAll_bareAll children, walkAll_bareAll ns]

/-! ### Trees of bullets -/

theorem deeper_map_bare (level : Nat) (bs : List Bullet) :
    deeper level (bs.map Bullet.bare) = (deeper level bs).map Bullet.bare := List.takeWhile_map

theorem notDeeper_map_bare (level : Nat) (bs : List Bullet) :
    notDeeper level (bs.map Bullet.bare) = (notDeeper level bs).map Bullet.bare :=
  List.dropWhile_map

/-- **The trees of bullets** do not depend on positions. -/
theorem bareAll_forest (bs : List Bullet) :
    bareAll (forest bs) = bareAll (forest (bs.map Bullet.bare)) := by
  induction bs using forest.induct with
  | case1 => rfl
  | case2 b bs ihDeeper ihNotDeeper =>
    have hindent : b.bare.indent = b.indent := rfl
    rw [forest_cons, List.map_cons, forest_cons, hindent, deeper_map_bare, notDeeper_map_bare,
      bareAll_cons, bareAll_cons, ihNotDeeper, bare_eq, bare_eq, children_toNode, children_toNode,
      ihDeeper]
    rfl

end Node

/-! ### Programs of outlines -/

namespace Outline

theorem ofLines_map_bare (lines : List Line) :
    ofLines (lines.map Line.bare) = (ofLines lines).bare := by
  induction lines with
  | nil => rfl
  | cons line lines ih =>
    have hkind : line.bare.kind = line.kind := rfl
    rw [List.map_cons, ofLines_cons, ofLines_cons, ih, addLine, addLine, hkind]
    cases line.kind <;> rfl

/-- **The program of an outline** does not depend on positions. -/
theorem bare_program (o : Outline) : o.program.bare = o.bare.program.bare := by
  rw [Node.bare_eq, Node.bare_eq, program, program, Outline.bare, List.map_map]
  congr 1
  rw [Node.bareAll_eq_map, Node.bareAll_eq_map, List.map_map, List.map_map]
  refine List.map_congr_left fun s _ => ?_
  show s.toNode.bare = s.bare.toNode.bare
  have hchildren : Node.bareAll s.toNode.children = Node.bareAll s.bare.toNode.children :=
    Node.bareAll_forest s.bullets
  rw [Node.bare_eq, Node.bare_eq, hchildren]
  rfl

end Outline

/-! ### Documents -/

namespace Line

variable {d : Document} {line : Line}

theorem ofRaw?_eq_some_iff {number : Nat} {raw : List Char} :
    ofRaw? number raw = some line ↔ Text.trim raw ≠ [] ∧
      { kind := classify (Text.trim raw)
        indent := indentLevel raw
        span := .onLine (UInt32.ofNat number) (UInt32.ofNat ((leading raw).length + 1))
          (Text.trim raw).length } = line := by
  simp [ofRaw?]

/-- The lines of a document are those that are read and not blank. -/
theorem mem_ofDocument_iff :
    line ∈ ofDocument d ↔ ∃ number raw, (number, raw) ∈ d.numberedLines ∧
      ofRaw? number raw = some line := by
  simp only [ofDocument, List.mem_filterMap, Prod.exists]

/-- A line of a document has its number. -/
theorem toNat_startLine {number : Nat} {raw : List Char} (hmem : (number, raw) ∈ d.numberedLines)
    (hline : ofRaw? number raw = some line) : line.span.startLine.toNat = number := by
  obtain ⟨hnumber, -⟩ := Document.mem_numberedLines_iff.1 hmem
  obtain ⟨-, rfl⟩ := ofRaw?_eq_some_iff.1 hline
  exact UInt32.toNat_ofNat_of_lt' (Nat.lt_of_le_of_lt hnumber d.lastNumber.toNat_lt_size)

/-- A line of a document is found by the number in its span. -/
theorem exists_of_mem_ofDocument (h : line ∈ ofDocument d) :
    ∃ raw, d.line? line.span.startLine.toNat = some raw ∧
      ofRaw? line.span.startLine.toNat raw = some line := by
  obtain ⟨number, raw, hmem, hline⟩ := mem_ofDocument_iff.1 h
  rw [toNat_startLine hmem hline]
  exact ⟨raw, (Document.mem_numberedLines_iff.1 hmem).2, hline⟩

/-- The line of a raw text without its position, if the text is not blank. -/
def bareOfRaw? (raw : List Char) : Option Line :=
  if (Text.trim raw).isEmpty then none
  else some { kind := classify (Text.trim raw), indent := indentLevel raw, span := {} }

theorem map_bare_ofRaw? (number : Nat) (raw : List Char) :
    (ofRaw? number raw).map bare = bareOfRaw? raw := by
  rw [ofRaw?, bareOfRaw?]
  split <;> rfl

theorem map_bare_ofDocument (d : Document) :
    (ofDocument d).map bare = d.scanned.filterMap bareOfRaw? := by
  have hraw : (Option.map bare ∘ fun p : Nat × List Char => ofRaw? p.1 p.2) ∘
      (fun p : List Char × Nat => (p.2 + 1, p.1)) = bareOfRaw? ∘ Prod.fst := by
    funext p
    exact map_bare_ofRaw? (p.2 + 1) p.1
  have hfst : d.scanned.zipIdx.map Prod.fst = d.scanned := List.zipIdx_map_fst 0 d.scanned
  rw [ofDocument, Document.numberedLines_eq, List.map_filterMap, List.filterMap_map]
  conv_rhs => rw [← hfst, List.filterMap_map]
  exact congrArg (fun f => d.scanned.zipIdx.filterMap f) hraw

end Line

/-- **The tree of a document,** up to positions, is made of the lines that are read, without
positions. -/
theorem Reading.bare_program_ofDocument (d : Document) :
    (ofDocument d).program.bare
      = (Outline.ofLines (d.scanned.filterMap Line.bareOfRaw?)).program.bare := by
  rw [ofDocument, ofLines_eq, Outline.bare_program, ← Outline.ofLines_map_bare,
    Line.map_bare_ofDocument]

end OutlineLisp
