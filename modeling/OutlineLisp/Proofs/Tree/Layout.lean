import Mathlib.Logic.Relation
import OutlineLisp.Proofs.Json.Node
import OutlineLisp.Proofs.Outline.Layout
import OutlineLisp.Proofs.Tree.Concatenation

/-!
# Sources in another layout

What a source says does not depend on its layout: lines that say nothing may come and go, every line
may be laid out in another way, and all lines may be indented further by the same width. None of
this changes the tree, up to levels and places, nor the number of warnings.

Three facts carry this, one for each kind of edit. An outline passes over prose. Lines that say the
same at the same level form the same outline. And a bullet is compared with others only by level, so
that trees remain as they are when all levels grow alike.

## Main definitions

* `Outline.said`: what an outline says, its tree and the number of its warnings.
* `Outline.sunk`: an outline some levels deeper.
* `Document.Relaid`: the lines of two sources differ in their layout, by a single edit.
* `Reading.Agrees`: two readings with the same tree and as many warnings.

## Main results

* `Outline.said_sunk`: what an outline says does not depend on the level at which it begins.
* `Outline.said_ofPieces_of_relaid`: a single edit.
* `Reading.agrees_of_relaid`: any combination of edits.
-/

namespace OutlineLisp

namespace Node

/-! ### Levels and places -/

/-- Without its places a tree has no positions either. -/
theorem unplacedAll_bareAll (ns : List Node) : unplacedAll (bareAll ns) = unplacedAll ns := by
  match ns with
  | [] => rfl
  | ⟨kind, value, children, indent, span⟩ :: ns =>
    rw [bareAll, bare, unplacedAll, unplaced, unplacedAll, unplaced, unplacedAll_bareAll children,
      unplacedAll_bareAll ns]

theorem unplacedAll_eq_map (ns : List Node) : unplacedAll ns = ns.map unplaced := by
  induction ns with
  | nil => rfl
  | cons n ns ih => rw [unplacedAll, ih, List.map_cons]

end Node

/-! ### Deeper levels -/

/-- A bullet some levels deeper. -/
def Bullet.sunk (k : ℕ) (b : Bullet) : Bullet := { b with indent := b.indent + k }

/-- A section whose bullets are some levels deeper. -/
def Section.sunk (k : ℕ) (s : Section) : Section := ⟨s.heading, s.bullets.map (Bullet.sunk k)⟩

/-- An outline some levels deeper. -/
def Outline.sunk (k : ℕ) (o : Outline) : Outline :=
  ⟨o.strays.map (Bullet.sunk k), o.sections.map (Section.sunk k)⟩

namespace Node

variable (k level : ℕ) (bs : List Bullet)

/-- Bullets are compared only with each other. -/
theorem lt_indent_comp_sunk :
    (fun b : Bullet => decide (level + k < b.indent)) ∘ Bullet.sunk k
      = fun b => decide (level < b.indent) := by
  funext b
  exact decide_eq_decide.2 Nat.add_lt_add_iff_right

theorem deeper_map_sunk :
    deeper (level + k) (bs.map (Bullet.sunk k)) = (deeper level bs).map (Bullet.sunk k) := by
  rw [deeper, List.takeWhile_map, lt_indent_comp_sunk, deeper]

theorem notDeeper_map_sunk :
    notDeeper (level + k) (bs.map (Bullet.sunk k)) = (notDeeper level bs).map (Bullet.sunk k) := by
  rw [notDeeper, List.dropWhile_map, lt_indent_comp_sunk, notDeeper]

/-- **The trees of bullets** do not depend on the level at which they begin. -/
theorem unplacedAll_forest_map_sunk :
    unplacedAll (forest (bs.map (Bullet.sunk k))) = unplacedAll (forest bs) := by
  -- The first bullet is a tree with what is deeper below it; the others are the trees behind it.
  induction bs using forest.induct with
  | case1 => rfl
  | case2 b bs ihDeeper ihNotDeeper =>
    have hindent : (b.sunk k).indent = b.indent + k := rfl
    rw [List.map_cons, forest_cons, forest_cons, hindent, deeper_map_sunk, notDeeper_map_sunk,
      unplacedAll, unplacedAll, ihNotDeeper, Bullet.toNode, Bullet.toNode, unplaced, unplaced,
      ihDeeper]
    rfl

end Node

namespace Outline

variable (o : Outline)

theorem ofLines_map_sunk (k : ℕ) (lines : List Line) :
    ofLines (lines.map (Line.sunk k)) = (ofLines lines).sunk k := by
  induction lines with
  | nil => rfl
  | cons line lines ih =>
    have hkind : (line.sunk k).kind = line.kind := rfl
    rw [List.map_cons, ofLines_cons, ofLines_cons, ih, addLine, addLine, hkind]
    cases line.kind <;> rfl

end Outline

/-! ### What an outline says -/

/-- How many warnings there are about a section. -/
def Section.warningCount (s : Section) : ℕ :=
  (if s.heading.name.isEmpty then 1 else 0) + if s.bullets.isEmpty then 1 else 0

theorem Section.length_warnings (d : Document) (s : Section) :
    (s.warnings d).length = s.warningCount := by
  have htrees : (Node.forest s.bullets).isEmpty = s.bullets.isEmpty := by
    rw [Bool.eq_iff_iff, List.isEmpty_iff, List.isEmpty_iff, Node.forest_eq_nil_iff]
  rw [warnings, Heading.warningOf, htrees, List.length_append, apply_ite List.length,
    apply_ite List.length, warningCount]
  rfl

namespace Outline

variable (k : ℕ) (o : Outline)

/-- How many warnings there are about an outline. -/
def warningCount : ℕ := o.strays.length + (o.sections.map Section.warningCount).sum

theorem length_warnings (d : Document) : (o.warnings d).length = o.warningCount := by
  rw [warnings, List.length_append, List.length_map, List.length_flatMap, warningCount]
  exact congrArg (fun f => o.strays.length + (o.sections.map f).sum)
    (funext (Section.length_warnings d))

/-- What an outline says: its tree, up to levels and places, and the number of its warnings. -/
def said : Node × ℕ := (o.program.unplaced, o.warningCount)

/-- Whatever changes neither the names of the headings nor the trees does not change what an outline
says. -/
theorem said_map {f : Bullet → Bullet} {g : Section → Section}
    (hname : ∀ s, (g s).heading.name = s.heading.name)
    (hempty : ∀ s, (g s).bullets.isEmpty = s.bullets.isEmpty)
    (htrees : ∀ s, Node.unplacedAll (Node.forest (g s).bullets)
      = Node.unplacedAll (Node.forest s.bullets)) :
    said ⟨o.strays.map f, o.sections.map g⟩ = o.said := by
  have hprogram : (program ⟨o.strays.map f, o.sections.map g⟩).unplaced = o.program.unplaced := by
    rw [program, program, Node.unplaced, Node.unplaced, Node.unplacedAll_eq_map,
      Node.unplacedAll_eq_map, List.map_map, List.map_map, List.map_map]
    congr 1
    refine List.map_congr_left fun s _ => ?_
    show (g s).toNode.unplaced = s.toNode.unplaced
    rw [Section.toNode, Section.toNode, Heading.toNode, Heading.toNode, Node.unplaced,
      Node.unplaced, hname, htrees]
  have hcount (s : Section) : (g s).warningCount = s.warningCount := by
    rw [Section.warningCount, Section.warningCount, hname, hempty]
  rw [said, said, hprogram, warningCount, warningCount, List.length_map, List.map_map]
  exact congrArg (fun f => (_, o.strays.length + (o.sections.map f).sum)) (funext hcount)

/-- What an outline says does not depend on positions. -/
theorem said_bare : o.bare.said = o.said :=
  o.said_map (fun _ => rfl) (fun _ => List.isEmpty_map) fun s => by
    rw [← Node.unplacedAll_bareAll (Node.forest s.bullets), Node.bareAll_forest,
      Node.unplacedAll_bareAll]
    rfl

/-- **What an outline says** does not depend on the level at which it begins. -/
theorem said_sunk : (o.sunk k).said = o.said :=
  o.said_map (fun _ => rfl) (fun _ => List.isEmpty_map)
    fun s => Node.unplacedAll_forest_map_sunk k s.bullets

/-! ### The lines of a source -/

/-- The outline of the lines of a source, without positions. -/
def ofPieces (pieces : List (List Char)) : Outline := ofLines (pieces.filterMap Line.bareOfRaw?)

theorem bare_outline {source : String}
    (hlines : Document.lineCount ⟨Reading.sourceName, source⟩ < UInt32.size) :
    (Reading.outline source).bare = ofPieces (Document.pieces source.toList) := by
  have hreturns : Line.bareOfRaw? ∘ Document.dropReturns = Line.bareOfRaw? :=
    funext Line.bareOfRaw?_dropReturns
  rw [Reading.outline, ← ofLines_map_bare, Line.map_bare_ofDocument,
    Document.scanned_eq_lines hlines, Document.lines, List.filterMap_map, hreturns, ofPieces]

/-- An outline passes over prose. -/
theorem ofLines_append_prose {line : Line} (h : line.kind = .prose) (before after : List Line) :
    ofLines (before ++ line :: after) = ofLines (before ++ after) := by
  induction before with
  | nil => rw [List.nil_append, ofLines_cons, addLine, h, List.nil_append]
  | cons first before ih => rw [List.cons_append, ofLines_cons, ih, List.cons_append, ofLines_cons]

/-- Lines that say nothing do not count. -/
theorem ofPieces_append_silent {line : List Char} (h : Line.Silent line)
    (before after : List (List Char)) :
    ofPieces (before ++ line :: after) = ofPieces (before ++ after) := by
  rw [ofPieces, ofPieces, List.filterMap_append, List.filterMap_append, List.filterMap_cons]
  cases hline : Line.bareOfRaw? line with
  | none => rfl
  | some l => exact ofLines_append_prose (h.kind_eq_prose l hline) _ _

end Outline

namespace Line

/-- Whether a line is another one behind blanks that are as wide as some levels. -/
def Indented (k : ℕ) (raw raw' : List Char) : Prop :=
  ∃ blanks, (∀ b ∈ blanks, b = ' ' ∨ b = '\t') ∧ width blanks = 2 * k ∧ raw' = blanks ++ raw

theorem Indented.bareOfRaw?_eq {k : ℕ} {raw raw' : List Char} (h : Indented k raw raw') :
    bareOfRaw? raw' = (bareOfRaw? raw).map (sunk k) := by
  obtain ⟨blanks, hblanks, hwidth, rfl⟩ := h
  refine bareOfRaw?_indented (fun b hb => ?_) hwidth raw
  rcases hblanks b hb with rfl | rfl <;> decide

end Line

namespace Document

/-- Whether the lines of two sources differ in their layout: those of one come from those of the
other by a single edit. -/
inductive Relaid : List (List Char) → List (List Char) → Prop where
  /-- A line that says nothing is inserted. -/
  | insert (before after : List (List Char)) {line : List Char} (h : Line.Silent line) :
    Relaid (before ++ after) (before ++ line :: after)
  /-- One line is laid out in another way. -/
  | relay (before after : List (List Char)) {line line' : List Char} (h : Line.Relaid line line') :
    Relaid (before ++ line :: after) (before ++ line' :: after)
  /-- All lines are indented further by the same width. -/
  | indent {k : ℕ} {lines lines' : List (List Char)}
    (h : List.Forall₂ (Line.Indented k) lines lines') : Relaid lines lines'

end Document

namespace Outline

theorem ofPieces_relaid {line line' : List Char} (h : Line.Relaid line line')
    (before after : List (List Char)) :
    ofPieces (before ++ line' :: after) = ofPieces (before ++ line :: after) := by
  rw [ofPieces, ofPieces, List.filterMap_append, List.filterMap_append, List.filterMap_cons,
    List.filterMap_cons, h.bareOfRaw?_eq]

theorem ofPieces_indented {k : ℕ} {pieces pieces' : List (List Char)}
    (h : List.Forall₂ (Line.Indented k) pieces pieces') :
    ofPieces pieces' = (ofPieces pieces).sunk k := by
  have hlines : pieces'.filterMap Line.bareOfRaw?
      = (pieces.filterMap Line.bareOfRaw?).map (Line.sunk k) := by
    induction h with
    | nil => rfl
    | @cons raw raw' _ _ hline _ ih =>
      rw [List.filterMap_cons, List.filterMap_cons, hline.bareOfRaw?_eq, ih]
      cases Line.bareOfRaw? raw <;> rfl
  rw [ofPieces, hlines, ofLines_map_sunk, ofPieces]

/-- **A single edit** of the layout does not change what the outline says. -/
theorem said_ofPieces_of_relaid {pieces pieces' : List (List Char)}
    (h : Document.Relaid pieces pieces') : (ofPieces pieces').said = (ofPieces pieces).said := by
  cases h with
  | insert before after h => rw [ofPieces_append_silent h]
  | relay before after h => rw [ofPieces_relaid h]
  | indent h => rw [ofPieces_indented h, said_sunk]

end Outline

/-! ### Readings -/

namespace Reading

/-- Whether two readings have the same tree, up to levels and places, and as many warnings. -/
structure Agrees (r r' : Reading) : Prop where
  program : r.program.unplaced = r'.program.unplaced
  total : r.warnings.total = r'.warnings.total

/-- What a reading yields is decided by what the outline says. -/
theorem agrees_of_said_eq {s t : String} (h : (outline s).said = (outline t).said) :
    Agrees (ofSource s) (ofSource t) := by
  obtain ⟨hprogram, hcount⟩ := Prod.mk.inj h
  rw [ofSource_eq, ofSource_eq]
  refine ⟨hprogram, ?_⟩
  rw [WarningLog.ofList, WarningLog.ofList, Outline.length_warnings, Outline.length_warnings,
    hcount]

/-- Whether two sources differ in their layout, by a single edit. -/
def Relaid (s t : String) : Prop :=
  Document.Relaid (Document.pieces s.toList) (Document.pieces t.toList)

/-- Combinations of edits do not change what the pieces of a source say. -/
theorem said_ofPieces_of_eqvGen {s t : String} (h : Relation.EqvGen Relaid s t) :
    (Outline.ofPieces (Document.pieces s.toList)).said
      = (Outline.ofPieces (Document.pieces t.toList)).said := by
  induction h with
  | rel s t h => exact (Outline.said_ofPieces_of_relaid h).symm
  | refl s => rfl
  | symm s t _ ih => exact ih.symm
  | trans s t u _ _ ihLeft ihRight => exact ihLeft.trans ihRight

/-- **Layout does not change the program:** whatever combination of edits leads from one source to
another, in either direction, both yield the same tree and as many warnings, if all their lines are
read. The sources between them may have any number of lines. -/
theorem agrees_of_relaid {s t : String} (h : Relation.EqvGen Relaid s t)
    (hs : Document.lineCount ⟨sourceName, s⟩ < UInt32.size)
    (ht : Document.lineCount ⟨sourceName, t⟩ < UInt32.size) :
    Agrees (ofSource s) (ofSource t) := by
  refine agrees_of_said_eq ?_
  rw [← Outline.said_bare, ← Outline.said_bare (outline t), Outline.bare_outline hs,
    Outline.bare_outline ht, said_ofPieces_of_eqvGen h]

/-- A deeper heading, another marker, one level more, and then prose in front. -/
theorem agrees_of_relaid_prose :
    Relation.EqvGen Relaid "# f\n* x" "f:\n  ## f\n\t- x" ∧
      Document.lineCount ⟨sourceName, "# f\n* x"⟩ < UInt32.size ∧
      Document.lineCount ⟨sourceName, "f:\n  ## f\n\t- x"⟩ < UInt32.size ∧
      Agrees (ofSource "# f\n* x") (ofSource "f:\n  ## f\n\t- x") := by
  have hplain : Document.pieces "# f\n* x".toList
      = [] ++ ([] ++ ['#', ' ', 'f']) :: [['*', ' ', 'x']] := by decide
  have hdeepened : Document.pieces "## f\n* x".toList
      = [] ++ ([] ++ ['#'] ++ ['#', ' ', 'f']) :: [['*', ' ', 'x']] := by decide
  have hmarked : Document.pieces "## f\n- x".toList = [['#', '#', ' ', 'f'], ['-', ' ', 'x']] := by
    decide
  have hindented : Document.pieces "  ## f\n\t- x".toList
      = [] ++ [[' ', ' ', '#', '#', ' ', 'f'], ['\t', '-', ' ', 'x']] := by decide
  have hprose : Document.pieces "f:\n  ## f\n\t- x".toList
      = [] ++ ['f', ':'] :: [[' ', ' ', '#', '#', ' ', 'f'], ['\t', '-', ' ', 'x']] := by decide
  have hdeepen : Relaid "# f\n* x" "## f\n* x" := by
    rw [Relaid, hplain, hdeepened]
    exact .relay [] _ (.deepened (by simp) 1 [' ', 'f'])
  have hmark : Relaid "## f\n* x" "## f\n- x" := by
    rw [Relaid, hdeepened, hmarked]
    exact .relay [['#', '#', ' ', 'f']] []
      (@Line.Relaid.remarked [] (by simp) '*' '-' ' ' (by decide) (by decide) (by decide) ['x']
        ⟨'x', List.mem_singleton_self 'x', by decide⟩)
  have hindent : Relaid "## f\n- x" "  ## f\n\t- x" := by
    rw [Relaid, hmarked, hindented]
    exact .indent (k := 1) (.cons ⟨[' ', ' '], by simp, by decide, rfl⟩
      (.cons ⟨['\t'], by simp, by decide, rfl⟩ .nil))
  have hinsert : Relaid "  ## f\n\t- x" "f:\n  ## f\n\t- x" := by
    rw [Relaid, hindented, hprose]
    exact .insert [] _ (by decide)
  have hedits : Relation.EqvGen Relaid "# f\n* x" "f:\n  ## f\n\t- x" :=
    .trans _ _ _ (.rel _ _ hdeepen) (.trans _ _ _ (.rel _ _ hmark)
      (.trans _ _ _ (.rel _ _ hindent) (.rel _ _ hinsert)))
  have hplainLines : Document.lineCount ⟨sourceName, "# f\n* x"⟩ < UInt32.size := by decide
  have hproseLines : Document.lineCount ⟨sourceName, "f:\n  ## f\n\t- x"⟩ < UInt32.size := by decide
  exact ⟨hedits, hplainLines, hproseLines, agrees_of_relaid hedits hplainLines hproseLines⟩

end Reading

end OutlineLisp
