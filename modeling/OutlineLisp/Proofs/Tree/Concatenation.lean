import OutlineLisp.Proofs.Source.Index
import OutlineLisp.Proofs.Tree.Indentation
import OutlineLisp.Proofs.Tree.Placement
import OutlineLisp.Proofs.Tree.Positions

/-!
# Documents one after the other

If a second text follows a first one on a new line, its lines follow those of the first, with larger
numbers. A heading closes whatever is open before it, so unless the second text begins with stray
bullets, nothing in it depends on the first: the definitions and the warnings of the two follow each
other, those of the second with larger line numbers.

## Main definitions

* `Span.down`: a span some lines further down.
* `Reading.Follows`: what the reading of a text has to do with those of its two parts.

## Main results

* `Line.ofDocument_append`: the lines of two texts.
* `Outline.ofLines_append`: the outline of two texts.
* `Reading.follows_ofSource`: the reading of two texts.
-/

namespace OutlineLisp

/-! ### Lines -/

/-- A span some lines further down. -/
def Span.down (k : ℕ) (s : Span) : Span :=
  { s with
    startLine := UInt32.ofNat (s.startLine.toNat + k)
    endLine := UInt32.ofNat (s.endLine.toNat + k) }

namespace Line

theorem ofNat_toNat_add (number k : ℕ) :
    UInt32.ofNat ((UInt32.ofNat number).toNat + k) = UInt32.ofNat (number + k) := by
  refine UInt32.toNat_inj.1 ?_
  simp

/-- A line with a larger number stands further down. -/
theorem ofRaw?_add (number k : ℕ) (raw : List Char) :
    ofRaw? (number + k) raw = (ofRaw? number raw).map (moved (Span.down k)) := by
  rw [ofRaw?, ofRaw?]
  split
  · rfl
  · simp only [Option.map_some, moved, Span.down, Span.onLine, ofNat_toNat_add]

/-- **The lines of two texts:** those of the second stand further down. -/
theorem ofDocument_append (name : String) {s t : String}
    (h : Document.lineCount ⟨name, s⟩ + Document.lineCount ⟨name, t⟩ < UInt32.size) :
    ofDocument ⟨name, s ++ "\n" ++ t⟩
      = ofDocument ⟨name, s⟩
        ++ (ofDocument ⟨name, t⟩).map (moved (Span.down (Document.lineCount ⟨name, s⟩))) := by
  rw [ofDocument, Document.numberedLines_append name h, List.filterMap_append, List.filterMap_map,
    ofDocument, ofDocument, List.map_filterMap]
  congr 2
  funext p
  exact ofRaw?_add p.1 _ p.2

end Line

/-! ### Outlines -/

/-- A section has at most two warnings. -/
theorem Section.length_warnings_le (d : Document) (s : Section) :
    (s.warnings d).length ≤ 2 := by
  rw [warnings, Heading.warningOf, List.length_append]
  split <;> split <;> simp

namespace Outline

/-- **The outline of two texts:** without stray bullets in the second, its sections follow. -/
theorem ofLines_append (lines lines' : List Line) (h : (ofLines lines').strays = []) :
    ofLines (lines ++ lines')
      = ⟨(ofLines lines).strays, (ofLines lines).sections ++ (ofLines lines').sections⟩ := by
  induction lines with
  | nil =>
    show ofLines lines' = ⟨[], (ofLines lines').sections⟩
    rw [← h]
  | cons line lines ih =>
    rw [List.cons_append, ofLines_cons, ih, ofLines_cons, addLine, addLine]
    cases line.kind <;> rfl

theorem children_program_append (o o' : Outline) :
    (program ⟨o.strays, o.sections ++ o'.sections⟩).children
      = o.program.children ++ o'.program.children := List.map_append

/-- The warnings about sections that follow others come after those about the others. -/
theorem warnings_append (d : Document) (o : Outline) {o' : Outline} (h : o'.strays = []) :
    warnings d ⟨o.strays, o.sections ++ o'.sections⟩ = o.warnings d ++ o'.warnings d := by
  rw [warnings, warnings, warnings, h, List.flatMap_append, List.append_assoc]
  rfl

/-- If no bullet comes before the first heading, there are no stray bullets. -/
theorem strays_eq_nil {lines : List Line}
    (h : ∀ line ∈ lines.takeWhile (fun line => !line.isHeading), line.bullet? = none) :
    (ofLines lines).strays = [] := by
  rw [ofLines_strays, Line.bulletsBefore, List.filterMap_eq_nil_iff]
  exact h

theorem length_flatMap_warnings_le (d : Document) (sections : List Section) :
    (sections.flatMap (Section.warnings d)).length ≤ 2 * sections.length := by
  induction sections with
  | nil => exact Nat.le_refl 0
  | cons s sections ih =>
    have hs := s.length_warnings_le d
    rw [List.flatMap_cons, List.length_append, List.length_cons]
    omega

theorem length_ofLines_le (lines : List Line) :
    (ofLines lines).strays.length + 2 * (ofLines lines).sections.length ≤ 2 * lines.length := by
  induction lines with
  | nil => exact Nat.le_refl 0
  | cons line lines ih =>
    rw [ofLines_cons, addLine]
    cases line.kind <;> simp only [List.length_cons, List.length_nil] <;> omega

/-- There are at most two warnings for each line. -/
theorem length_warnings_ofLines_le (d : Document) (lines : List Line) :
    ((ofLines lines).warnings d).length ≤ 2 * lines.length := by
  have hsections := length_flatMap_warnings_le d (ofLines lines).sections
  have hlines := length_ofLines_le lines
  rw [warnings, List.length_append, List.length_map]
  omega

end Outline

/-! ### Readings -/

namespace WarningLog

theorem mem_of_mem_stored_ofList {ws : List Warning} {w : Warning} (h : w ∈ (ofList ws).stored) :
    w ∈ ws := List.mem_of_mem_take h

/-- A log of two lists of warnings keeps what the logs of the two have kept, as far as it can. -/
theorem stored_ofList_append (ws vs : List Warning) (f : Warning → Warning) :
    (ofList (ws ++ vs.map f)).stored
      = ((ofList ws).stored ++ (ofList vs).stored.map f).take capacity := by
  have hleft : min (capacity - min capacity ws.length) capacity = capacity - ws.length := by omega
  show (ws ++ vs.map f).take capacity = (ws.take capacity ++ (vs.take capacity).map f).take capacity
  rw [List.map_take, List.take_append, List.take_append, List.take_take, List.take_take,
    Nat.min_self, List.length_take, hleft]

/-- It counts the warnings of both. -/
theorem toNat_total_ofList_append {ws vs : List Warning} (f : Warning → Warning)
    (h : ws.length + vs.length < UInt64.size) :
    (ofList (ws ++ vs.map f)).total.toNat = (ofList ws).total.toNat + (ofList vs).total.toNat := by
  have htotal {us : List Warning} (hus : us.length < UInt64.size) :
      (ofList us).total.toNat = us.length := UInt64.toNat_ofNat_of_lt' hus
  rw [htotal (by simpa using h), htotal (by omega), htotal (by omega), List.length_append,
    List.length_map]

end WarningLog

/-- Whether the line numbers of a span so many lines further down are larger by that. -/
structure Span.Descends (k : ℕ) (s : Span) : Prop where
  startLine : (s.down k).startLine.toNat = s.startLine.toNat + k
  endLine : (s.down k).endLine.toNat = s.endLine.toNat + k

theorem Span.descends_onLine {k number : ℕ} (h : number + k < UInt32.size) (column : UInt32)
    (length : ℕ) : (onLine (UInt32.ofNat number) column length).Descends k := by
  have hnumber : (UInt32.ofNat number).toNat = number :=
    UInt32.toNat_ofNat_of_lt' (Nat.lt_of_le_of_lt (Nat.le_add_right _ _) h)
  have hdown : (UInt32.ofNat ((UInt32.ofNat number).toNat + k)).toNat
      = (UInt32.ofNat number).toNat + k := by
    rw [hnumber, UInt32.toNat_ofNat_of_lt' h]
  exact ⟨hdown, hdown⟩

/-! ### Lines of two texts that are shown -/

namespace Document

variable {name s : String} {span : Span}

theorem sourceLine_append_left (h : span.startLine.toNat ≤ lineCount ⟨name, s⟩) (t : String) :
    sourceLine ⟨name, s ++ "\n" ++ t⟩ span = sourceLine ⟨name, s⟩ span := by
  rw [sourceLine, line?_append_left h, sourceLine]

theorem sourceLine_append_right (name s t : String) (hpos : 1 ≤ span.startLine.toNat)
    (hdown : span.Descends (lineCount ⟨name, s⟩)) :
    sourceLine ⟨name, s ++ "\n" ++ t⟩ (span.down (lineCount ⟨name, s⟩))
      = sourceLine ⟨name, t⟩ span := by
  rw [sourceLine, hdown.startLine, line?_append_right name s t hpos, sourceLine]

end Document

namespace Line

variable {d : Document}

/-- The lines of a document have the numbers up to their count. -/
theorem startLine_of_mem_ofDocument {line : Line} (h : line ∈ ofDocument d) :
    1 ≤ line.span.startLine.toNat ∧ line.span.startLine.toNat ≤ d.lineCount := by
  obtain ⟨raw, hfound, -⟩ := exists_of_mem_ofDocument h
  exact Document.le_lineCount_of_line? hfound

theorem descends_of_mem_ofDocument {k : ℕ} (h : k + d.lineCount < UInt32.size) :
    ∀ line ∈ ofDocument d, line.span.Descends k := by
  intro line hline
  have hcount := (startLine_of_mem_ofDocument hline).2
  obtain ⟨raw, -, hraw⟩ := exists_of_mem_ofDocument hline
  obtain ⟨-, hline⟩ := ofRaw?_eq_some_iff.1 hraw
  rw [← hline]
  exact Span.descends_onLine (by omega) _ _

theorem length_ofDocument_le (d : Document) : (ofDocument d).length ≤ d.lineCount := by
  refine (List.length_filterMap_le _ _).trans ?_
  rw [Document.numberedLines_eq, List.length_map, List.length_zipIdx, Document.length_scanned]
  exact d.lastNumber_le

end Line

namespace Reading

/-- What the reading of a text has to do with those of its two parts, of which the second begins
some lines further down. -/
structure Follows (k : ℕ) (first second whole : Reading) : Prop where
  /-- The definitions of the second part follow those of the first. -/
  children : whole.program.children
    = first.program.children ++ second.program.children.map (Node.moved (Span.down k))
  /-- There are the warnings of both. -/
  total : whole.warnings.total.toNat
    = first.warnings.total.toNat + second.warnings.total.toNat
  /-- They are kept in this order, as far as there is room. -/
  stored : whole.warnings.stored
    = (first.warnings.stored ++ second.warnings.stored.map (Warning.moved (Span.down k))).take
      WarningLog.capacity
  /-- All line numbers in the trees of the second part are really larger by that many lines. -/
  nodes : ∀ n ∈ Node.walkAll second.program.children, n.span.Descends k
  /-- So are those in its warnings. -/
  warnings : ∀ w ∈ second.warnings.stored, w.span.Descends k

/-- The outline of a source text. -/
def outline (source : String) : Outline := Outline.ofLines (Line.ofDocument ⟨sourceName, source⟩)

theorem ofSource_eq (source : String) :
    ofSource source
      = ⟨(outline source).program, .ofList ((outline source).warnings ⟨sourceName, source⟩)⟩ := by
  rw [ofSource, ofDocument, ofLines_eq, outline]

theorem length_warnings_outline_le (source : String) :
    ((outline source).warnings ⟨sourceName, source⟩).length
      ≤ 2 * Document.lineCount ⟨sourceName, source⟩ :=
  (Outline.length_warnings_ofLines_le _ _).trans
    (Nat.mul_le_mul_left 2 (Line.length_ofDocument_le _))

section TwoTexts

variable {s t : String}
  (hlines : Document.lineCount ⟨sourceName, s⟩ + Document.lineCount ⟨sourceName, t⟩ < UInt32.size)

include hlines

theorem outline_append (h : (outline t).strays = []) :
    outline (s ++ "\n" ++ t)
      = ⟨(outline s).strays, (outline s).sections
          ++ ((outline t).moved (Span.down (Document.lineCount ⟨sourceName, s⟩))).sections⟩ := by
  have hmoved := Outline.strays_moved_eq_nil (Span.down (Document.lineCount ⟨sourceName, s⟩)) h
  rw [outline, ← Outline.ofLines_map_moved] at hmoved
  rw [outline, Line.ofDocument_append sourceName hlines, Outline.ofLines_append _ _ hmoved,
    Outline.ofLines_map_moved]
  rfl

/-- **The warnings about two texts,** one after the other. Each shows the same line as before. -/
theorem warnings_outline_append (h : (outline t).strays = []) :
    (outline (s ++ "\n" ++ t)).warnings ⟨sourceName, s ++ "\n" ++ t⟩
      = (outline s).warnings ⟨sourceName, s⟩ ++ ((outline t).warnings ⟨sourceName, t⟩).map
          (Warning.moved (Span.down (Document.lineCount ⟨sourceName, s⟩))) := by
  have hfirst : (outline s).Placed fun span =>
      Document.sourceLine ⟨sourceName, s ++ "\n" ++ t⟩ span
        = Document.sourceLine ⟨sourceName, s⟩ span :=
    Outline.placed_ofLines fun _ hline =>
      Document.sourceLine_append_left (Line.startLine_of_mem_ofDocument hline).2 t
  have hsecond : (outline t).Placed fun span =>
      Document.sourceLine ⟨sourceName, s ++ "\n" ++ t⟩
          (span.down (Document.lineCount ⟨sourceName, s⟩))
        = Document.sourceLine ⟨sourceName, t⟩ span :=
    Outline.placed_ofLines fun line hline =>
      Document.sourceLine_append_right sourceName s t
        (Line.startLine_of_mem_ofDocument hline).1
        (Line.descends_of_mem_ofDocument hlines line hline)
  have hmoved := Outline.strays_moved_eq_nil (Span.down (Document.lineCount ⟨sourceName, s⟩)) h
  rw [outline_append hlines h, Outline.warnings_append _ _ hmoved,
    Outline.warnings_congr hfirst rfl, Outline.warnings_moved hsecond rfl]

end TwoTexts

/-- **The reading of two texts, one after the other:** if no bullet of the second comes before its
first heading, definitions and warnings are those of the two. -/
theorem follows_ofSource (s t : String)
    (hstrays : ∀ line ∈ (Line.ofDocument ⟨sourceName, t⟩).takeWhile (fun line => !line.isHeading),
      line.bullet? = none)
    (hlines : Document.lineCount ⟨sourceName, s⟩ + Document.lineCount ⟨sourceName, t⟩
      < UInt32.size) :
    Follows (Document.lineCount ⟨sourceName, s⟩) (ofSource s) (ofSource t)
      (ofSource (s ++ "\n" ++ t)) := by
  have hnil : (outline t).strays = [] := Outline.strays_eq_nil hstrays
  have hplaced : (outline t).Placed (Span.Descends (Document.lineCount ⟨sourceName, s⟩)) :=
    Outline.placed_ofLines (Line.descends_of_mem_ofDocument hlines)
  have hs := length_warnings_outline_le s
  have ht := length_warnings_outline_le t
  have hsize : 2 * UInt32.size ≤ UInt64.size := by decide
  rw [ofSource_eq, ofSource_eq, ofSource_eq, warnings_outline_append hlines hnil,
    outline_append hlines hnil]
  exact
    { children := by
        rw [Outline.children_program_append, Outline.children_program_moved]
      total := WarningLog.toNat_total_ofList_append _ (by omega)
      stored := WarningLog.stored_ofList_append _ _ _
      nodes := hplaced.walkAll
      warnings := fun w hw => hplaced.warnings _ w (WarningLog.mem_of_mem_stored_ofList hw) }

/-- A definition without bullets, and then `main`: its lines get larger numbers by one. -/
theorem follows_ofSource_main :
    (∀ line ∈ (Line.ofDocument ⟨sourceName, "# main\n* `1`"⟩).takeWhile
        (fun line => !line.isHeading), line.bullet? = none) ∧
      Document.lineCount ⟨sourceName, "# idle"⟩ + Document.lineCount ⟨sourceName, "# main\n* `1`"⟩
        < UInt32.size ∧
      Follows 1 (ofSource "# idle") (ofSource "# main\n* `1`")
        (ofSource ("# idle" ++ "\n" ++ "# main\n* `1`")) := by
  have hstrays : ∀ line ∈ (Line.ofDocument ⟨sourceName, "# main\n* `1`"⟩).takeWhile
      (fun line => !line.isHeading), line.bullet? = none := by decide
  have hlines : Document.lineCount ⟨sourceName, "# idle"⟩
      + Document.lineCount ⟨sourceName, "# main\n* `1`"⟩ < UInt32.size := by decide
  exact ⟨hstrays, hlines, follows_ofSource _ _ hstrays hlines⟩

end Reading

end OutlineLisp
