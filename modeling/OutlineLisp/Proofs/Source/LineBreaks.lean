import Mathlib.Data.List.Basic
import OutlineLisp.Proofs.Source.Index
import OutlineLisp.Proofs.Tree.Placement

/-!
# Lines and line breaks

What is looked up in a document are the pieces of its text between the newlines, without the
carriage returns at their ends, and the offsets in the index never fail to enclose them. Since a
carriage return in front of a newline is dropped with the line break, a document reads the same
whether or not all newlines have one.

## Main definitions

* `Document.Indexed`: what the index of a document finds.
* `Document.withReturns`: a text with a carriage return in front of every newline.

## Main results

* `Document.indexed`: the index finds the lines of the text.
* `Document.lines_withReturns`: carriage returns do not change the lines.
* `Reading.ofDocument_congr`: documents with the same lines.
* `Reading.indexed_and_ofDocument_withReturns`: both, of documents and their readings.
-/

namespace OutlineLisp

namespace Document

variable (d : Document)

/-! ### Pieces between newlines -/

theorem pieces_eq_splitOn (cs : List Char) : pieces cs = cs.splitOn '\n' := by
  induction cs with
  | nil => rfl
  | cons c cs ih =>
    rw [pieces_cons, List.splitOn_cons_eq_if_modifyHead, ← ih]
    cases hp : pieces cs with
    | nil => exact absurd hp (pieces_ne_nil cs)
    | cons first rest => by_cases hc : c = '\n' <;> simp [splitStep, hc]

/-- Whether two offsets enclose a stretch of a text: both lie between characters, within the text
and in order. -/
structure Encloses (text : String) (start stop : ℕ) : Prop where
  start_le_stop : start ≤ stop
  stop_le_size : stop ≤ text.utf8ByteSize
  isValid_start : String.Pos.Raw.IsValid text ⟨start⟩
  isValid_stop : String.Pos.Raw.IsValid text ⟨stop⟩

theorem isValid_byteSize {text : String} {front rest : List Char}
    (h : text.toList = front ++ rest) :
    String.Pos.Raw.IsValid text ⟨Text.byteSize front⟩ := by
  rw [String.Pos.Raw.isValid_iff_exists_append]
  refine ⟨String.ofList front, String.ofList rest, ?_, ?_⟩
  · rw [← String.ofList_append, ← h, String.ofList_toList]
  · rw [String.rawEndPos, ← Text.byteSize_toList, String.toList_ofList]

/-- Wherever a stretch can be taken out of a text, the offsets enclose it. -/
theorem encloses_of_slice? {text : String} {start stop : ℕ} {inner : List Char}
    (h : Text.slice? text.toList start stop = some inner) : Encloses text start stop := by
  obtain ⟨front, rest, htext, rfl, rfl⟩ := Text.slice?_eq_some_iff.1 h
  have hsize := Text.byteSize_toList text
  rw [htext, Text.byteSize_append] at hsize
  refine ⟨?_, by omega, ?_, isValid_byteSize htext⟩
  · rw [Text.byteSize_append]
    exact Nat.le_add_right _ _
  · rw [List.append_assoc] at htext
    exact isValid_byteSize htext

/-! ### The index -/

/-- What the index of a document finds. -/
structure Indexed (d : Document) : Prop where
  /-- There are as many lines as pieces between newlines. -/
  count : d.lineCount = (d.text.toList.splitOn '\n').length
  /-- They are the pieces without the carriage returns at their ends, numbered from one. All of them
  are read if their numbers are words. -/
  numbered : d.lineCount < UInt32.size → d.numberedLines
    = ((d.text.toList.splitOn '\n').map (List.rdropWhile (· = '\r'))).zipIdx.map
      fun (line, i) => (i + 1, line)
  /-- Each of them is found by its number, between offsets that enclose it. -/
  found : ∀ n, 1 ≤ n → n ≤ d.lineCount → ∃ start stop piece,
    (d.text.toList.splitOn '\n')[n - 1]? = some piece ∧ d.bounds? n = some (start, stop) ∧
      Encloses d.text start stop ∧ Text.slice? d.text.toList start stop = some piece ∧
      d.line? n = some (piece.rdropWhile (· = '\r'))
  /-- No other number is that of a line. -/
  notFound : ∀ n, n = 0 ∨ d.lineCount < n → d.line? n = none

theorem lines_eq : d.lines = (d.text.toList.splitOn '\n').map (List.rdropWhile (· = '\r')) := by
  rw [lines, pieces_eq_splitOn]
  rfl

/-- **The index finds the lines** of the text. -/
theorem indexed : d.Indexed where
  count := by
    rw [lineCount_eq, lines_eq, List.length_map]
  numbered h := by
    rw [numberedLines_eq, scanned_eq_lines h, lines_eq]
  found n hpos hcount := by
    obtain ⟨before, piece, after, hpieces, rfl⟩ := exists_pieces_eq hpos hcount
    have hslice : Text.slice? d.text.toList (Text.byteSize (unlines before))
        (Text.byteSize (unlines before ++ piece)) = some piece :=
      Text.slice?_eq_some_iff.2 ⟨_, _, eq_of_pieces hpieces, rfl, rfl⟩
    refine ⟨_, _, piece, ?_, bounds?_of_pieces hpieces, encloses_of_slice? hslice, hslice,
      line?_of_pieces hpieces⟩
    rw [← pieces_eq_splitOn, hpieces]
    simp
  notFound n hn := by
    rw [line?_eq]
    rcases hn with hzero | hcount
    · rw [if_pos hzero]
    · rw [if_neg (by omega), List.getElem?_eq_none_iff, ← lineCount_eq]
      omega

/-! ### Carriage returns -/

/-- A text with a carriage return in front of every newline. -/
def withReturns (text : String) : String :=
  String.ofList (text.toList.flatMap fun c => if c = '\n' then ['\r', '\n'] else [c])

/-- Of what follows a character only what remains of it counts. -/
theorem dropReturns_cons_congr {cs ds : List Char} (c : Char)
    (h : dropReturns cs = dropReturns ds) : dropReturns (c :: cs) = dropReturns (c :: ds) := by
  have hdrop : cs.reverse.dropWhile (fun c => c = '\r')
      = ds.reverse.dropWhile (fun c => c = '\r') := List.reverse_injective h
  rw [dropReturns, dropReturns, List.reverse_cons, List.reverse_cons, List.dropWhile_append,
    List.dropWhile_append, hdrop]

theorem map_dropReturns_pieces (cs : List Char) :
    (pieces (cs.flatMap fun c => if c = '\n' then ['\r', '\n'] else [c])).map dropReturns
      = (pieces cs).map dropReturns := by
  induction cs with
  | nil => rfl
  | cons c cs ih =>
    rw [List.flatMap_cons]
    by_cases hc : c = '\n'
    · -- the carriage return is a piece of its own here, or else the end of one
      rw [if_pos hc, hc, List.cons_append, List.singleton_append, pieces_cons, pieces_newline,
        splitStep, if_neg (by decide), pieces_newline, List.map_cons, List.map_cons, ih]
      rfl
    · rw [if_neg hc, List.singleton_append, pieces_cons, pieces_cons]
      generalize pieces (cs.flatMap fun c => if c = '\n' then ['\r', '\n'] else [c]) = ps at ih ⊢
      cases hcs : pieces cs with
      | nil => exact absurd hcs (pieces_ne_nil cs)
      | cons first rest =>
        rw [hcs] at ih
        cases ps with
        | nil => simp at ih
        | cons first' rest' =>
          obtain ⟨hfirst, hrest⟩ := List.cons.inj ih
          rw [splitStep, splitStep, if_neg hc, if_neg hc, List.map_cons, List.map_cons, hrest,
            dropReturns_cons_congr c hfirst]

/-- **Carriage returns in front of newlines** do not change the lines. -/
theorem lines_withReturns (name text : String) :
    lines ⟨name, withReturns text⟩ = lines ⟨name, text⟩ := by
  rw [lines, withReturns, String.toList_ofList, map_dropReturns_pieces, lines]

/-! ### Documents with the same lines -/

variable {d} {d' : Document}

theorem numberedLines_congr (h : d'.lines = d.lines) : d'.numberedLines = d.numberedLines := by
  have hlast : d'.lastNumber = d.lastNumber := by
    rw [lastNumber, lastNumber, lineCount_eq, lineCount_eq, h]
  rw [numberedLines_eq, numberedLines_eq, scanned, scanned, h, hlast]

theorem sourceLine_congr (h : d'.lines = d.lines) (span : Span) :
    d'.sourceLine span = d.sourceLine span := by
  rw [sourceLine, sourceLine, line?_eq, line?_eq, h]

end Document

namespace Reading

/-- **Documents with the same name and the same lines** read the same. -/
theorem ofDocument_congr {d d' : Document} (hname : d'.name = d.name) (h : d'.lines = d.lines) :
    ofDocument d' = ofDocument d := by
  have hlines : Line.ofDocument d' = Line.ofDocument d := by
    rw [Line.ofDocument, Document.numberedLines_congr h, Line.ofDocument]
  have hplaced : (Outline.ofLines (Line.ofDocument d)).Placed fun span =>
      d'.sourceLine span = d.sourceLine span :=
    Outline.placed_ofLines fun line _ => Document.sourceLine_congr h line.span
  rw [ofDocument, ofDocument, ofLines_eq, ofLines_eq, hlines,
    Outline.warnings_congr hplaced hname]

/-- **Documents are read line by line,** and the index finds their lines: the pieces between
newlines, without the carriage returns at their ends. So a document reads the same if all its
newlines get a carriage return. -/
theorem indexed_and_ofDocument_withReturns (d : Document) :
    d.Indexed ∧ ofDocument { d with text := Document.withReturns d.text } = ofDocument d :=
  ⟨d.indexed, ofDocument_congr rfl (Document.lines_withReturns d.name d.text)⟩

end Reading

/-- A character of two bytes, and carriage returns at the end of the first line only. -/
example :
    Document.bounds? ⟨"", "é\r\r\n\rb"⟩ 1 = some (0, 4) ∧
      Document.line? ⟨"", "é\r\r\n\rb"⟩ 1 = some ['é'] ∧
      Document.line? ⟨"", "é\r\r\n\rb"⟩ 2 = some ['\r', 'b'] := by
  decide

end OutlineLisp
