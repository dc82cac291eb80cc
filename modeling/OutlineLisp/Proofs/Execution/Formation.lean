import OutlineLisp.Execution.Run
import OutlineLisp.Proofs.Execution.Registration
import OutlineLisp.Proofs.Form.Free
import OutlineLisp.Proofs.Form.Nesting
import OutlineLisp.Proofs.Machine.Invariant
import OutlineLisp.Proofs.Tree.Indentation

/-!
# Programs that are read have forms

The nodes of a program that has been read are items with a value, so they say enough to have a form.
A definition without bullets denotes no function and is passed over; any other denotes a function
unless its body is nested too deep, and a run that meets such a definition stops at the nesting
limit.

A fault about a malformed node is therefore out of the question. The machine itself never raises
one, and so whoever runs a program gets it from one of the definitions, or not at all.

## Main definitions

* `Machine.formation`: an invariant without demands, except that no node is malformed.
* `Section.Compiles`: what becomes of the definition of a section.

## Main results

* `Run.exists_malformed`: where faults about malformed nodes come from.
* `Reading.compiles_ofSource`: which definitions of a source text denote functions.
-/

namespace OutlineLisp

/-! ### Faults of the machine -/

namespace Machine

/-- Forms are made before the machine starts, and no step finds fault with a node. -/
def formation : Invariant where
  value _ _ := True
  form _ _ _ := True
  store _ := True
  fault f := ∀ kind value, f ≠ .malformed kind value
  value_mono _ _ := trivial
  form_mono _ _ := trivial
  part _ _ := trivial
  lookup _ _ := trivial
  unbound _ _ := nofun
  finds := by
    rintro _ ⟨⟩ kind value ⟨⟩
  closure _ _ := trivial
  inherited _ _ := ⟨fun _ => trivial, fun _ => trivial, fun _ => trivial, trivial,
    fun _ _ _ => trivial, fun _ _ => trivial⟩
  enter _ _ _ := ⟨trivial, trivial⟩

/-- **The machine never finds a node malformed.** -/
theorem formed_answer (limits : Limits) (e : Evaluator) (r : Request) (kind : NodeKind)
    (value : Option Atom) : (e.answer limits r).1 ≠ .error (.malformed kind value) := by
  intro h
  have hr : formation.OnRequest e.world.store r := by
    cases r with
    | eval form scope => trivial
    | apply callee args => exact ⟨trivial, fun _ _ => trivial⟩
  exact (formation.answer limits hr trivial).2.1 _ h kind value rfl

end Machine

/-! ### Faults of a run -/

open Machine

theorem Evaluator.exists_malformed_of_register {limits : Limits} {scope : ScopeId}
    {definitions : List Node} {e e' : Evaluator} {kind : NodeKind} {value : Option Atom}
    (h : register limits scope definitions e = (.error (.malformed kind value), e')) :
    ∃ definition ∈ definitions,
      Lambda.ofDefinition definition = .error (.malformed kind value) := by
  induction definitions generalizing e with
  | nil => cases h
  | cons definition definitions ih =>
    rw [register_cons] at h
    split at h
    · next fault hfault =>
      cases h
      exact ⟨definition, List.mem_cons_self, hfault⟩
    · exact List.exists_mem_cons_of_exists (ih h)
    · split at h
      · exact List.exists_mem_cons_of_exists (ih h)
      · cases h

namespace Run

variable {limits : Limits}

theorem formed_ofRegistered (limits : Limits) (e : Evaluator) (kind : NodeKind)
    (value : Option Atom) :
    (ofRegistered limits e).outcome ≠ .error (.malformed kind value) := by
  rw [ofRegistered]
  split
  · rintro ⟨⟩
  · next main _ =>
    split
    · rintro ⟨⟩
    · next fault e' hfault =>
      intro h
      cases h
      exact formed_answer limits e (.apply main []) kind value (congrArg Prod.fst hfault)

/-- **Faults about malformed nodes come from definitions,** and never from the run of `main`. -/
theorem exists_malformed {program : Node} {kind : NodeKind} {value : Option Atom}
    (h : (ofProgram limits program).outcome = .error (.malformed kind value)) :
    ∃ definition ∈ program.definitions,
      Lambda.ofDefinition definition = .error (.malformed kind value) := by
  rw [ofProgram] at h
  split at h
  · exact absurd h (formed_ofRegistered limits _ kind value)
  · next fault e hreg =>
    cases h
    exact Evaluator.exists_malformed_of_register hreg

end Run

/-! ### Programs that are read -/

/-- A well-formed item says enough to have a form. -/
theorem Item.WellFormed.meaningful {n : Node} (h : WellFormed n.kind n.value) : n.Meaningful := by
  obtain ⟨kind, value, children, indent, span⟩ := n
  cases h with
  | name => exact ⟨⟨_, rfl⟩, fun _ => .inr rfl⟩
  | number => exact ⟨⟨_, rfl⟩, fun _ => .inl rfl⟩
  | text => exact ⟨⟨_, rfl⟩, fun _ => .inl rfl⟩

/-- What becomes of the definition of a section. -/
structure Section.Compiles (s : Section) (definition : Node) : Prop where
  /-- It denotes no function, and no fault either, exactly if there are no bullets. -/
  none_iff : Lambda.ofDefinition definition = .ok none ↔ s.bullets = []
  /-- With bullets it has a body, and denotes a function exactly if that is not nested too deep. -/
  some_iff : s.bullets ≠ [] → ∃ body, definition.body? = some body ∧
    ((∃ l, Lambda.ofDefinition definition = .ok (some l)) ↔ body.Nestable)
  /-- In the remaining case the nesting limit is passed. -/
  tooDeep : ∀ body, definition.body? = some body → ¬body.Nestable →
    Lambda.ofDefinition definition = .error (.exhausted (.nesting Form.maxNesting))
  /-- It is never malformed. -/
  formed : ∀ kind value, Lambda.ofDefinition definition ≠ .error (.malformed kind value)

theorem Node.exists_body? {definition : Node} (h : definition.children ≠ []) :
    ∃ body, definition.body? = some body := by
  rw [body?]
  split
  · next hnil => exact absurd hnil h
  · exact ⟨_, rfl⟩
  · exact ⟨_, rfl⟩

theorem Section.compiles_toNode (s : Section) (h : s.toNode.WellFormedDefinition) :
    s.Compiles s.toNode := by
  have hmeaningful : ∀ n ∈ Node.walkAll s.toNode.children, n.Meaningful :=
    fun n hn => (h.items n hn).meaningful
  have hsome {r : Except Fault (Option Lambda)} (hr : r ≠ .ok none) :
      (∃ l, r = .ok (some l)) ↔ ∃ o, r = .ok o := by
    constructor
    · rintro ⟨l, hl⟩
      exact ⟨some l, hl⟩
    · rintro ⟨_ | l, hl⟩
      · exact absurd hl hr
      · exact ⟨l, hl⟩
  have hnone : Lambda.ofDefinition s.toNode = .ok none ↔ s.bullets = [] := by
    rw [Lambda.ofDefinition_eq_none_iff, s.children_toNode_eq_nil_iff]
  refine ⟨hnone, fun hbullets => ?_, fun body hbody => ?_, fun kind value hfault => ?_⟩
  · have hchildren : s.toNode.children ≠ [] := mt s.children_toNode_eq_nil_iff.1 hbullets
    obtain ⟨body, hbody⟩ := Node.exists_body? hchildren
    have hsettles := Lambda.settles_ofDefinition hmeaningful hbody
    exact ⟨body, hbody, (hsome (mt hnone.1 hbullets)).trans hsettles.ok_iff⟩
  · exact (Lambda.settles_ofDefinition hmeaningful hbody).eq_error
  · by_cases hbullets : s.bullets = []
    · rw [hnone.2 hbullets] at hfault
      cases hfault
    · obtain ⟨body, hbody⟩ :=
        Node.exists_body? (mt s.children_toNode_eq_nil_iff.1 hbullets)
      have hsettles := Lambda.settles_ofDefinition hmeaningful hbody
      rw [hfault] at hsettles
      cases hsettles

namespace Reading

/-- The definitions of a program that is read are those of the sections of its lines. -/
theorem definitions_ofDocument (d : Document) :
    (ofDocument d).program.definitions
      = ((Line.ofDocument d).tails.filterMap Section.ofTail?).map Section.toNode := by
  have hprogram : (ofDocument d).program = (Outline.ofLines (Line.ofDocument d)).program := by
    rw [ofDocument, ofLines_eq]
  rw [hprogram, Outline.definitions_program, Outline.ofLines_sections]

/-- What becomes of a section of a document, as its definition says enough. -/
theorem compiles_toNode_of_mem {d : Document} {s : Section}
    (hs : s ∈ (Line.ofDocument d).tails.filterMap Section.ofTail?) : s.Compiles s.toNode := by
  have hmem : s.toNode ∈ (ofDocument d).program.definitions := by
    rw [definitions_ofDocument]
    exact List.mem_map_of_mem hs
  exact s.compiles_toNode ((wellFormed_ofDocument d).definitions _ (List.mem_filter.1 hmem).1)

theorem forall₂_compiles_ofDocument (d : Document) :
    List.Forall₂ Section.Compiles ((Line.ofDocument d).tails.filterMap Section.ofTail?)
      (ofDocument d).program.definitions := by
  rw [definitions_ofDocument, List.forall₂_map_right_iff, List.forall₂_same]
  exact fun s hs => compiles_toNode_of_mem hs

/-- No run of a program that is read finds a node malformed. -/
theorem formed_ofDocument (d : Document) (limits : Limits) (kind : NodeKind)
    (value : Option Atom) :
    (Run.ofProgram limits (ofDocument d).program).outcome ≠ .error (.malformed kind value) := by
  intro h
  obtain ⟨definition, hmem, hfault⟩ := Run.exists_malformed h
  rw [definitions_ofDocument] at hmem
  obtain ⟨s, hs, rfl⟩ := List.mem_map.1 hmem
  exact (compiles_toNode_of_mem hs).formed kind value hfault

/-- **Which definitions of a source text denote functions.** The definitions of its program are
those of the sections that the heading lines open, of the lines that are read. One whose section has
no bullets denotes none; any other denotes a function exactly if nothing in its body is nested too
deep, and is otherwise refused for that reason. So no run of a source text ends with a malformed
node. -/
theorem compiles_ofSource (source : String) :
    List.Forall₂ Section.Compiles
        ((Line.ofDocument ⟨sourceName, source⟩).tails.filterMap Section.ofTail?)
        (ofSource source).program.definitions ∧
      ∀ limits kind value,
        (Run.ofProgram limits (ofSource source).program).outcome ≠ .error (.malformed kind value) :=
  ⟨forall₂_compiles_ofDocument _, fun limits => formed_ofDocument _ limits⟩

end Reading

end OutlineLisp
