import OutlineLisp.Proofs.Form.Free
import OutlineLisp.Proofs.Tree.Indentation
import OutlineLisp.Proofs.Tree.Positions

/-!
# What lines are warned about

Which warnings there are is said here line by line, from what stands before a line and after it: a
bullet is stray if no heading comes before it, and a heading is empty if no bullet comes before the
next heading. A program is built in another order. That a heading is empty is noticed only when the
next heading is reached, or the end; and yet the log has the warnings in the order of their lines,
since nothing else is reported in between.

The empty headings are just those whose definitions denote no function.

## Main definitions

* `Line.codes`: what is wrong with a line, given its surroundings.
* `Line.warnings`: the warnings about lines, one line after the other.
* `Reading.Reports`: what the log of a document has to do with given warnings.

## Main results

* `Outline.warnings_ofLines`: the warnings about an outline are those about its lines.
* `Outline.map_emptyDefinition`: the warnings about definitions that denote nothing.
* `Reading.reports_ofDocument`: the log of a document.
-/

namespace OutlineLisp

/-! ### Line by line -/

/-- What a warning with a code says about a line of a kind. -/
def LineKind.complaint : LineKind → UInt16 → String
  | .heading name, code =>
    if code = WarningCode.unnamedHeading then "heading has no definition name"
    else "definition '" ++ name ++ "' has no body and will not be registered"
  | .bullet content, _ =>
    "list item '" ++ content ++ "' appears before any definition and is ignored"
  | .prose, _ => ""

namespace Line

/-- What is wrong with a line, given whether a heading comes before it, and the lines after it. -/
def codes (headed : Bool) (line : Line) (after : List Line) : List UInt16 :=
  match line.kind with
  | .heading name =>
    (if name = "" then [WarningCode.unnamedHeading] else [])
      ++ if bulletsBefore after = [] then [WarningCode.emptyDefinition] else []
  | .bullet _ => if headed then [] else [WarningCode.strayBullet]
  | .prose => []

/-- The warning about a line with a code. -/
def warning (d : Document) (line : Line) (code : UInt16) : Warning :=
  d.warning code (line.kind.complaint code) line.span

/-- The warnings about lines, one line after the other. -/
def warnings (d : Document) (headed : Bool) : List Line → List Warning
  | [] => []
  | line :: after =>
    (line.codes headed after).map (line.warning d)
      ++ warnings d (headed || line.isHeading) after

/-- There are three things that may be wrong with a line. -/
theorem codes_subset (headed : Bool) (line : Line) (after : List Line) :
    line.codes headed after
      ⊆ [WarningCode.strayBullet, WarningCode.unnamedHeading, WarningCode.emptyDefinition] := by
  intro code h
  rw [codes] at h
  split at h
  · rcases List.mem_append.1 h with hname | hempty
    · split at hname
      · exact List.mem_cons_of_mem _ (List.mem_cons.2 (.inl (List.mem_singleton.1 hname)))
      · cases hname
    · split at hempty
      · exact List.mem_cons_of_mem _ (List.mem_cons_of_mem _ hempty)
      · cases hempty
  · split at h
    · cases h
    · exact List.mem_cons.2 (.inl (List.mem_singleton.1 h))
  · cases h

/-- Every warning is about one of the lines, and says one of the three things. -/
theorem exists_of_mem_warnings {d : Document} {headed : Bool} {lines : List Line} {w : Warning}
    (h : w ∈ warnings d headed lines) :
    ∃ line ∈ lines, ∃ code ∈ [WarningCode.strayBullet, WarningCode.unnamedHeading,
      WarningCode.emptyDefinition], w = line.warning d code := by
  induction lines generalizing headed with
  | nil => simp [warnings] at h
  | cons line lines ih =>
    rw [warnings, List.mem_append] at h
    rcases h with hline | hlines
    · obtain ⟨code, hcode, rfl⟩ := List.mem_map.1 hline
      exact ⟨line, List.mem_cons_self, code, codes_subset headed line lines hcode, rfl⟩
    · obtain ⟨line', hmem, hw⟩ := ih hlines
      exact ⟨line', List.mem_cons_of_mem line hmem, hw⟩

end Line

/-! ### Outlines -/

/-- The warnings about a section are those about its heading line. -/
theorem Section.map_warning_codes (d : Document) (headed : Bool) {line : Line} {name : String}
    (h : line.kind = .heading name) (after : List Line) :
    (line.codes headed after).map (line.warning d)
      = warnings d ⟨⟨name, line.span⟩, Line.bulletsBefore after⟩ := by
  have htrees : (Node.forest (Line.bulletsBefore after)).isEmpty = true
      ↔ Line.bulletsBefore after = [] := List.isEmpty_iff.trans Node.forest_eq_nil_iff
  have hname : name.isEmpty = true ↔ name = "" := String.isEmpty_iff
  have hunnamed : line.warning d WarningCode.unnamedHeading
      = Heading.unnamedWarning d ⟨name, line.span⟩ := by
    rw [Line.warning, h]
    rfl
  have hempty : line.warning d WarningCode.emptyDefinition
      = Heading.emptyWarning d ⟨name, line.span⟩ := by
    rw [Line.warning, h]
    rfl
  simp only [Line.codes, h, warnings, Heading.warningOf, htrees, hname, List.map_append,
    apply_ite (List.map (line.warning d)), List.map_cons, List.map_nil, hunnamed, hempty]

namespace Outline

/-- Line by line, the warnings are those about the sections of the lines, and about the stray
bullets unless a heading comes before all lines. -/
theorem warnings_eq (d : Document) (lines : List Line) (headed : Bool) :
    Line.warnings d headed lines
      = (if headed then [] else (ofLines lines).strays.map (Bullet.strayWarning d))
        ++ (ofLines lines).sections.flatMap (Section.warnings d) := by
  induction lines generalizing headed with
  | nil => simp [Line.warnings]
  | cons line lines ih =>
    rw [Line.warnings, ih, ofLines_cons, addLine]
    cases h : line.kind with
    | heading name =>
      rw [Section.map_warning_codes d headed h, ← ofLines_strays]
      simp [Line.isHeading, h]
    | bullet content =>
      cases headed <;> simp [Line.codes, Line.isHeading, h, Line.warning, LineKind.complaint,
        Bullet.strayWarning]
    | prose => simp [Line.codes, Line.isHeading, h]

/-- **The warnings about an outline** are those about its lines. -/
theorem warnings_ofLines (d : Document) (lines : List Line) :
    (ofLines lines).warnings d = Line.warnings d false lines := by
  rw [warnings_eq]
  rfl

end Outline

/-! ### Definitions that denote nothing -/

/-- Whether a definition denotes no function and no fault. -/
def Node.denotesNothing (d : Node) : Bool :=
  match Lambda.ofDefinition d with
  | .ok none => true
  | _ => false

theorem Node.denotesNothing_iff {d : Node} :
    d.denotesNothing = true ↔ Lambda.ofDefinition d = .ok none := by
  rw [denotesNothing]
  split
  · next hnone => simp [hnone]
  · next hsome => simpa using hsome

namespace Section

/-- A section without bullets is a definition that denotes nothing. -/
theorem denotesNothing_toNode (s : Section) : s.toNode.denotesNothing = s.bullets.isEmpty := by
  rw [Bool.eq_iff_iff, Node.denotesNothing_iff, Lambda.ofDefinition_eq_none_iff,
    s.children_toNode_eq_nil_iff, List.isEmpty_iff]

theorem filter_emptyDefinition_warnings (d : Document) (s : Section) :
    (s.warnings d).filter (fun w => w.code = WarningCode.emptyDefinition)
      = if s.toNode.denotesNothing then [s.heading.emptyWarning d] else [] := by
  have hunnamed : (s.heading.unnamedWarning d).code ≠ WarningCode.emptyDefinition := by
    show WarningCode.unnamedHeading ≠ WarningCode.emptyDefinition
    decide
  have hempty : (s.heading.emptyWarning d).code = WarningCode.emptyDefinition := rfl
  have htrees : (Node.forest s.bullets).isEmpty = s.toNode.denotesNothing := by
    rw [s.denotesNothing_toNode, Bool.eq_iff_iff, List.isEmpty_iff, List.isEmpty_iff,
      Node.forest_eq_nil_iff]
  rw [warnings, Heading.warningOf, htrees, List.filter_append]
  split <;> split <;> simp [hunnamed, hempty]

end Section

/-- **The empty headings** that are warned about are the definitions that denote nothing. -/
theorem Outline.map_emptyDefinition (d : Document) (o : Outline) :
    ((o.warnings d).filter fun w => w.code = WarningCode.emptyDefinition).map
        (fun w => (w.span, w.message))
      = (o.program.definitions.filter Node.denotesNothing).map fun d =>
        (d.span, (LineKind.heading (d.text?.getD "")).complaint WarningCode.emptyDefinition) := by
  have hstrays : (o.strays.map (Bullet.strayWarning d)).filter
      (fun w => w.code = WarningCode.emptyDefinition) = [] := by
    refine List.filter_eq_nil_iff.2 fun w hw => ?_
    obtain ⟨b, -, rfl⟩ := List.mem_map.1 hw
    show ¬decide (WarningCode.strayBullet = WarningCode.emptyDefinition) = true
    decide
  have hdefinitions : o.program.definitions = o.sections.map Section.toNode := by
    refine List.filter_eq_self.2 fun d hd => ?_
    obtain ⟨s, -, rfl⟩ := List.mem_map.1 hd
    rfl
  rw [hdefinitions, warnings, List.filter_append, hstrays, List.nil_append, List.filter_flatMap,
    List.map_flatMap, List.filter_map, List.map_map]
  induction o.sections with
  | nil => rfl
  | cons s sections ih =>
    rw [List.flatMap_cons, ih, s.filter_emptyDefinition_warnings, List.filter_cons]
    cases h : s.toNode.denotesNothing with
    | false => simp [h]
    | true => simpa [h] using ⟨rfl, rfl⟩

/-! ### The log of a document -/

namespace Reading

/-- What the log of a document has to do with given warnings. -/
structure Reports (d : Document) (r : Reading) (ws : List Warning) : Prop where
  /-- All warnings are counted, in a word of 64 bits. -/
  total : r.warnings.total = UInt64.ofNat ws.length
  /-- The first twenty are kept, in order. -/
  stored : r.warnings.stored = ws.take 20
  /-- Each is about a line: it has the span of the line, and shows the line as it stands in the
  document. -/
  line : ∀ w ∈ r.warnings.stored, ∃ number raw line, d.line? number = some raw ∧
    Line.ofRaw? number raw = some line ∧ w.span = line.span ∧ w.sourceLine = String.ofList raw
  /-- The category follows from the code: a stray bullet and an unnamed heading are not well formed,
  and an empty heading does not fit its surroundings. Nothing else is warned about. -/
  category : ∀ w ∈ r.warnings.stored,
    (w.code = WarningCode.strayBullet ∨ w.code = WarningCode.unnamedHeading) ∧
        w.category = .wording ∨
      w.code = WarningCode.emptyDefinition ∧ w.category = .arrangement
  /-- The empty headings are the definitions that denote nothing. -/
  empty : (ws.filter fun w => w.code = WarningCode.emptyDefinition).map
      (fun w => (w.span, w.message))
    = (r.program.definitions.filter Node.denotesNothing).map fun d =>
      (d.span, (LineKind.heading (d.text?.getD "")).complaint WarningCode.emptyDefinition)

/-- The reading of a document has the program of its lines and the warnings about them. -/
theorem ofDocument_eq (d : Document) :
    ofDocument d = ⟨(Outline.ofLines (Line.ofDocument d)).program,
      .ofList (Line.warnings d false (Line.ofDocument d))⟩ := by
  rw [ofDocument, ofLines_eq, Outline.warnings_ofLines]

/-- **The log of a document** has the warnings about its lines, one line after the other. -/
theorem reports_ofDocument (d : Document) :
    Reports d (ofDocument d) (Line.warnings d false (Line.ofDocument d)) := by
  have hmem {w : Warning} (h : w ∈ (ofDocument d).warnings.stored) :
      ∃ line ∈ Line.ofDocument d, ∃ code ∈ [WarningCode.strayBullet, WarningCode.unnamedHeading,
        WarningCode.emptyDefinition], w = line.warning d code := by
    rw [ofDocument_eq] at h
    exact Line.exists_of_mem_warnings (List.mem_of_mem_take h)
  refine ⟨?_, ?_, fun w hw => ?_, fun w hw => ?_, ?_⟩
  · rw [ofDocument_eq]
    rfl
  · rw [ofDocument_eq]
    rfl
  · obtain ⟨line, hline, code, -, rfl⟩ := hmem hw
    obtain ⟨raw, hfound, hraw⟩ := Line.exists_of_mem_ofDocument hline
    exact ⟨_, raw, line, hfound, hraw, rfl, Document.sourceLine_eq hfound⟩
  · obtain ⟨line, -, code, hcode, rfl⟩ := hmem hw
    simp only [List.mem_cons, List.not_mem_nil, or_false] at hcode
    rcases hcode with rfl | rfl | rfl
    · exact .inl ⟨.inl rfl, rfl⟩
    · exact .inl ⟨.inr rfl, rfl⟩
    · exact .inr ⟨rfl, rfl⟩
  · rw [ofDocument_eq, ← Outline.warnings_ofLines]
    exact Outline.map_emptyDefinition d _

end Reading

end OutlineLisp
