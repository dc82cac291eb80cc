import OutlineLisp.Proofs.Text.Trimming
import OutlineLisp.Proofs.Tree.Warnings
import OutlineLisp.Proofs.Tree.WellFormed

/-!
# What spans mark

A span refers to a line by its number and to the characters of the line by their columns. Both are
words of 32 bits. The lines that are read have such numbers, and a text that is shorter than that
has no more columns. So the span of everything that is read marks just the text it was read from:
the line without the blanks at its ends. Reading the marked text again gives the same node.

A walk through the program visits nodes in the order of their lines, because it visits the lines
that say something one after the other.

## Main definitions

* `Span.select`: the characters of a line that a span marks.
* `Span.Marks`: a span marks a line of a document without the blanks at its ends.
* `LineKind.said?`, `Line.node?`: what a line says, and its node.

## Main results

* `Line.exists_marks`: the span of a line marks its text.
* `Outline.map_alone_walkAll_program`: a walk through a program visits what its lines say.
* `Reading.located_ofDocument`: what the spans of a program and its warnings mark.
-/

namespace OutlineLisp

/-! ### Lines and columns of a text -/

namespace Document

theorem length_le_length_unlines (ls : List (List Char)) : ls.length ≤ (unlines ls).length := by
  induction ls with
  | nil => exact Nat.zero_le _
  | cons l ls ih =>
    rw [unlines_cons, List.length_append, List.length_cons, List.length_cons]
    omega

/-- The lines in front of a line and its own characters are characters of the text, if the last
newline is counted too. -/
theorem number_add_length_le {d : Document} {n : ℕ} {raw : List Char} (h : d.line? n = some raw) :
    n + raw.length ≤ d.text.length + 1 := by
  obtain ⟨hpos, hcount⟩ := le_lineCount_of_line? h
  obtain ⟨before, piece, after, hpieces, rfl⟩ := exists_pieces_eq hpos hcount
  obtain rfl : dropReturns piece = raw := Option.some.inj ((line?_of_pieces hpieces).symm.trans h)
  have hraw : (dropReturns piece).length ≤ piece.length := (dropReturns_prefix_self piece).length_le
  have hbefore : before.length ≤ (unlines before).length := length_le_length_unlines before
  have htext : d.text.length
      = (unlines before).length + piece.length + ('\n' :: unlines after).dropLast.length := by
    rw [← String.length_toList, eq_of_pieces hpieces, List.length_append, List.length_append]
  omega

end Document

/-! ### Spans of lines -/

namespace Span

/-- The last column is where it should be, as long as there are enough columns. -/
theorem toNat_lastColumn {column length : ℕ} (hcolumn : 1 ≤ column) (hlength : 1 ≤ length)
    (h : column + length ≤ UInt32.size) :
    (lastColumn (UInt32.ofNat column) length).toNat = column + (length - 1) := by
  have hfirst : (UInt32.ofNat column).toNat = column := UInt32.toNat_ofNat_of_lt' (by omega)
  have hcount : (UInt32.ofNat length).toNat = length := UInt32.toNat_ofNat_of_lt' (by omega)
  have hle : 1 ≤ UInt32.ofNat length := by
    rw [UInt32.le_iff_toNat_le, hcount]
    exact hlength
  have hlast : (UInt32.ofNat column + (UInt32.ofNat length - 1)).toNat = column + (length - 1) := by
    rw [UInt32.toNat_add, UInt32.toNat_sub_of_le _ _ hle, hfirst, hcount]
    exact Nat.mod_eq_of_lt (Nat.lt_of_lt_of_le (by simp; omega) h)
  have hzero : UInt32.ofNat length ≠ 0 := by
    intro hzero
    rw [hzero] at hcount
    simp at hcount
    omega
  have hnotBefore : ¬UInt32.ofNat column + (UInt32.ofNat length - 1) < UInt32.ofNat column := by
    rw [UInt32.lt_iff_toNat_lt, hlast, hfirst]
    omega
  simp only [lastColumn, hzero, hnotBefore, decide_false, Bool.or_self, Bool.false_eq_true,
    if_false, hlast]

/-- The characters of a line that a span marks: those from its first column to its last one. -/
def select (s : Span) (line : List Char) : List Char :=
  (line.drop (s.startColumn.toNat - 1)).take (s.endColumn.toNat + 1 - s.startColumn.toNat)

/-- Whether a span marks a line of a document without the blanks at its ends. -/
structure Marks (d : Document) (s : Span) (raw : List Char) : Prop where
  /-- The line is in the document, and the span does not leave it. -/
  line : d.line? s.startLine.toNat = some raw
  endLine : s.endLine = s.startLine
  /-- The columns are columns of the line, in order. -/
  firstColumn : 1 ≤ s.startColumn.toNat
  columns : s.startColumn.toNat ≤ s.endColumn.toNat
  lastColumn : s.endColumn.toNat ≤ raw.length
  /-- What they select is the text of the line. -/
  select : s.select raw = Text.trim raw

end Span

namespace Line

/-- The text of a line stands behind the blanks in front. -/
theorem take_drop_leading (raw : List Char) :
    (raw.drop (leading raw).length).take (Text.trim raw).length = Text.trim raw := by
  have hraw : leading raw ++ Text.trimStart raw = raw := List.takeWhile_append_dropWhile
  have hstart : raw.drop (leading raw).length = Text.trimStart raw := by
    calc raw.drop (leading raw).length
        = (leading raw ++ Text.trimStart raw).drop (leading raw).length := by rw [hraw]
      _ = Text.trimStart raw := List.drop_left
  rw [hstart]
  exact (List.prefix_iff_eq_take.1 (Text.trimEnd_prefix_self _)).symm

theorem length_leading_add_le (raw : List Char) :
    (leading raw).length + (Text.trim raw).length ≤ raw.length := by
  have hleading : (leading raw).length ≤ raw.length := (List.takeWhile_prefix _).length_le
  have htext := congrArg List.length (take_drop_leading raw)
  rw [List.length_take, List.length_drop] at htext
  omega

/-- The columns of the text of a line, counted from one. -/
theorem toNat_columns {raw : List Char} (hne : Text.trim raw ≠ [])
    (h : raw.length < UInt32.size) :
    (UInt32.ofNat ((leading raw).length + 1)).toNat = (leading raw).length + 1 ∧
      (Span.lastColumn (UInt32.ofNat ((leading raw).length + 1)) (Text.trim raw).length).toNat
        = (leading raw).length + (Text.trim raw).length := by
  have htext : 1 ≤ (Text.trim raw).length := List.length_pos_of_ne_nil hne
  have hlength := length_leading_add_le raw
  refine ⟨UInt32.toNat_ofNat_of_lt' (by omega), ?_⟩
  rw [Span.toNat_lastColumn (Nat.le_add_left 1 _) htext (by omega)]
  omega

variable {d : Document} {line : Line}

/-- **The span of a line** marks its text, which says of what kind the line is. -/
theorem exists_marks (h : d.text.length < UInt32.size) (hmem : line ∈ ofDocument d) :
    ∃ raw, line.span.Marks d raw ∧ classify (line.span.select raw) = line.kind := by
  obtain ⟨number, raw, hmem, hline⟩ := mem_ofDocument_iff.1 hmem
  have hnumber := toNat_startLine hmem hline
  obtain ⟨-, hfound⟩ := Document.mem_numberedLines_iff.1 hmem
  obtain ⟨hne, rfl⟩ := ofRaw?_eq_some_iff.1 hline
  have hpos := (Document.le_lineCount_of_line? hfound).1
  have hbound := Document.number_add_length_le hfound
  have hlength := length_leading_add_le raw
  have htext : 1 ≤ (Text.trim raw).length := List.length_pos_of_ne_nil hne
  obtain ⟨hfirst, hlast⟩ := toNat_columns hne (by omega)
  have hselect : Span.select (.onLine (UInt32.ofNat number)
      (UInt32.ofNat ((leading raw).length + 1)) (Text.trim raw).length) raw = Text.trim raw := by
    have hcount : (leading raw).length + (Text.trim raw).length + 1 - ((leading raw).length + 1)
        = (Text.trim raw).length := by omega
    rw [Span.select, Span.onLine]
    simp only [hfirst, hlast, hcount, Nat.add_sub_cancel, take_drop_leading]
  refine ⟨raw, ⟨?_, rfl, ?_, ?_, ?_, hselect⟩, congrArg classify hselect⟩
  · rw [hnumber, hfound]
  · show 1 ≤ (UInt32.ofNat ((leading raw).length + 1)).toNat
    omega
  · show (UInt32.ofNat ((leading raw).length + 1)).toNat ≤ (Span.lastColumn _ _).toNat
    omega
  · show (Span.lastColumn _ _).toNat ≤ raw.length
    omega

/-- The lines of a document stand one below the other. -/
theorem pairwise_startLine (d : Document) :
    (ofDocument d).Pairwise fun l m => l.span.startLine < m.span.startLine := by
  rw [ofDocument, List.pairwise_filterMap]
  refine d.pairwise_numberedLines.imp_of_mem fun hp hq hlt l hl m hm => ?_
  rw [UInt32.lt_iff_toNat_lt, toNat_startLine hp hl, toNat_startLine hq hm]
  exact hlt

end Line

/-! ### What lines say -/

/-- What a line of a kind says: prose says nothing. -/
def LineKind.said? : LineKind → Option (NodeKind × Option Atom)
  | .heading name => some (.definition, some (.text name))
  | .bullet content =>
    some ((Item.read content.toList).1, some (Item.read content.toList).2)
  | .prose => none

/-- The node of a line on its own. -/
def Line.node? (line : Line) : Option Node :=
  match line.kind with
  | .heading name => some (Heading.toNode ⟨name, line.span⟩ [])
  | .bullet content => some (Bullet.toNode ⟨content, line.indent, line.span⟩ [])
  | .prose => none

/-- It stands where the line stands, and says what the line says. -/
theorem Line.span_eq_and_said?_eq {line : Line} {n : Node} (h : line.node? = some n) :
    n.span = line.span ∧ line.kind.said? = some n.said := by
  rw [node?] at h
  split at h
  · next name hkind =>
    obtain rfl := Option.some.inj h
    exact ⟨rfl, congrArg LineKind.said? hkind⟩
  · next content hkind =>
    obtain rfl := Option.some.inj h
    exact ⟨rfl, congrArg LineKind.said? hkind⟩
  · cases h

namespace Outline

/-- **A walk through the program** of lines visits the nodes of the lines, in their order, except
for the stray bullets in front. -/
theorem map_alone_walkAll_program (lines : List Line) :
    (ofLines lines).strays.map (·.toNode [])
        ++ (Node.walkAll (ofLines lines).program.children).map Node.alone
      = lines.filterMap Line.node? := by
  induction lines with
  | nil => rfl
  | cons line lines ih =>
    rw [ofLines_cons, addLine, List.filterMap_cons, Line.node?, ← ih]
    cases line.kind with
    | heading name =>
      -- the stray bullets behind the heading are below it now
      have hchildren (s : Section) : s.toNode.children = Node.forest s.bullets := rfl
      rw [program, List.map_cons, Node.walkAll_cons, hchildren, List.map_cons, List.map_append,
        Node.map_alone_walkAll_forest]
      rfl
    | bullet content => rfl
    | prose => rfl

end Outline

/-! ### Where the nodes and the warnings of a document are -/

namespace Reading

/-- What the spans of a program and of the warnings mark. -/
structure Located (d : Document) (r : Reading) : Prop where
  /-- The span of a node below the root marks a line, and the marked text says what the node
  says. -/
  nodes : ∀ n ∈ Node.walkAll r.program.children, ∃ raw, n.span.Marks d raw ∧
    (Line.classify (n.span.select raw)).said? = some n.said
  /-- The span of a warning marks a line. -/
  warnings : ∀ w ∈ r.warnings.stored, ∃ raw, w.span.Marks d raw
  /-- In preorder, nodes stand one below the other. -/
  ordered : (Node.walkAll r.program.children).Pairwise fun n m =>
    n.span.startLine < m.span.startLine

/-- **Spans are exact** for every text that is shorter than there are columns. -/
theorem located_ofDocument (d : Document) (h : d.text.length < UInt32.size) :
    (ofDocument d).Located d := by
  have hwalk := Outline.map_alone_walkAll_program (Line.ofDocument d)
  rw [ofDocument_eq]
  refine ⟨fun n hn => ?_, fun w hw => ?_, ?_⟩
  · have hnode : n.alone ∈ (Line.ofDocument d).filterMap Line.node? := by
      rw [← hwalk]
      exact List.mem_append_right _ (List.mem_map_of_mem hn)
    obtain ⟨line, hline, hnode⟩ := List.mem_filterMap.1 hnode
    obtain ⟨hspan, hsaid⟩ := Line.span_eq_and_said?_eq hnode
    obtain ⟨raw, hmarks, hkind⟩ := Line.exists_marks h hline
    change n.span = line.span at hspan
    rw [← hspan] at hmarks hkind
    exact ⟨raw, hmarks, by rw [hkind, hsaid]; rfl⟩
  · obtain ⟨line, hline, code, -, rfl⟩ := Line.exists_of_mem_warnings (List.mem_of_mem_take hw)
    obtain ⟨raw, hmarks, -⟩ := Line.exists_marks h hline
    exact ⟨raw, hmarks⟩
  · have hnodes : ((Line.ofDocument d).filterMap Line.node?).Pairwise fun n m =>
        n.span.startLine < m.span.startLine := by
      rw [List.pairwise_filterMap]
      refine (Line.pairwise_startLine d).imp fun hlt n hn m hm => ?_
      rwa [(Line.span_eq_and_said?_eq hn).1, (Line.span_eq_and_said?_eq hm).1]
    rw [← hwalk, List.pairwise_append] at hnodes
    obtain ⟨-, hbelow, -⟩ := hnodes
    rwa [List.pairwise_map] at hbelow

/-- A blank of three bytes in front of a heading, and a stray bullet above it. -/
theorem located_ofDocument_blanks :
    "* x\n\n\u3000# é \r\n  - `1`".length < UInt32.size ∧
      (ofDocument ⟨"", "* x\n\n\u3000# é \r\n  - `1`"⟩).Located
        ⟨"", "* x\n\n\u3000# é \r\n  - `1`"⟩ :=
  ⟨by decide, located_ofDocument _ (by decide)⟩

end Reading

end OutlineLisp
