import OutlineLisp.Proofs.Execution.Formation
import OutlineLisp.Proofs.Form.Matching
import OutlineLisp.Proofs.Json.Report

/-!
# Running a program that was passed on

A run depends on what the definitions of a program denote, and so on nothing but the values of the
tree, their places, and the kinds of its leaves. Two programs that match in this run alike: the same
lines and the same outcome, only that a fault about a malformed node may name another kind.

Passing a program on in data exchange keeps all of this. So running a source text and running what
its program is read back as are one and the same; and since no node of such a program is malformed,
there is no exception.

## Main definitions

* `Node.MatchesProgram`: programs that match below their roots.
* `Run.Resembles`: runs that are equal but perhaps for the kind of a malformed node.

## Main results

* `Evaluator.resembles_register`: registering matching definitions.
* `Run.resembles_ofProgram`: matching programs run alike, and passing a program on changes nothing.
-/

namespace OutlineLisp

open Fault (Resembles)

/-! ### Matching programs -/

namespace Node

/-- Whether two children of roots match, and both or neither are definitions. -/
structure MatchesPart (d e : Node) : Prop where
  tree : d.Matches e
  definition_iff : d.kind = .definition ↔ e.kind = .definition

/-- Whether two programs match below their roots, with definitions in the same places. -/
def MatchesProgram (p q : Node) : Prop := List.Forall₂ MatchesPart p.children q.children

theorem MatchesProgram.definitions {p q : Node} (h : p.MatchesProgram q) :
    List.Forall₂ Matches p.definitions q.definitions := by
  have hfilter : List.Forall₂ MatchesPart p.definitions q.definitions :=
    List.rel_filter (fun d e hde => by simp [hde.definition_iff]) h
  exact hfilter.imp fun d e hde => hde.tree

theorem Matches.text?_eq {d e : Node} (h : d.Matches e) : d.text? = e.text? := by
  rw [text?, text?, h.value_eq]

/-- A tree matches itself without its places. -/
theorem matchesAll_unplacedAll (ns : List Node) : MatchesAll ns (unplacedAll ns) := by
  match ns with
  | [] => rfl
  | ⟨kind, value, children, indent, span⟩ :: ns =>
    rw [MatchesAll]
    refine ⟨_, _, rfl, ?_, matchesAll_unplacedAll ns⟩
    rw [Matches]
    exact ⟨rfl, fun _ => .inl rfl, matchesAll_unplacedAll children⟩

theorem kind_unplaced (n : Node) : n.unplaced.kind = n.kind := by
  cases n
  rfl

theorem matchesProgram_unplaced (n : Node) : n.MatchesProgram n.unplaced := by
  obtain ⟨kind, value, children, indent, span⟩ := n
  show List.Forall₂ MatchesPart children (unplacedAll children)
  have hall := matchesAll_unplacedAll children
  induction children with
  | nil => exact .nil
  | cons n ns ih =>
    rw [matchesAll_iff] at hall
    cases hall with
    | cons hn hns =>
      exact .cons ⟨hn, by rw [kind_unplaced]⟩ (ih (matchesAll_iff.2 hns))

end Node

/-! ### Matching definitions -/

/-- Registering matching definitions gives the same evaluator, and outcomes that resemble each
other. -/
theorem Evaluator.resembles_register (limits : Limits) (scope : ScopeId) {ds es : List Node}
    (h : List.Forall₂ Node.Matches ds es) (e : Evaluator) :
    Resembles (register limits scope ds e).1 (register limits scope es e).1 ∧
      (register limits scope ds e).2 = (register limits scope es e).2 := by
  induction h generalizing e with
  | nil => exact ⟨.same _, rfl⟩
  | @cons d d' ds es hd _ ih =>
    have hdenotes := Lambda.resembles_ofDefinition hd.children
    rw [register_cons, register_cons, ← hd.text?_eq]
    generalize Lambda.ofDefinition d = r, Lambda.ofDefinition d' = r' at hdenotes
    cases hdenotes with
    | malformed kind kind' value => exact ⟨.malformed kind kind' value, rfl⟩
    | same r =>
      match r with
      | .error fault => exact ⟨.same _, rfl⟩
      | .ok none => exact ih e
      | .ok (some l) =>
        dsimp only
        split
        · exact ih _
        · exact ⟨.same _, rfl⟩

/-! ### Runs -/

namespace Run

/-- Whether two runs are equal but perhaps for the kind of a malformed node. -/
structure Resembles (r r' : Run) : Prop where
  lines : r.lines = r'.lines
  outcome : Fault.Resembles r.outcome r'.outcome

theorem Resembles.eq {r r' : Run} (h : r.Resembles r')
    (hr : ∀ kind value, r.outcome ≠ .error (.malformed kind value)) : r = r' := by
  obtain ⟨outcome, lines⟩ := r
  obtain ⟨outcome', lines'⟩ := r'
  obtain rfl : lines = lines' := h.lines
  obtain rfl : outcome = outcome' := h.outcome.eq hr
  rfl

theorem resembles_of_matches {p q : Node} (h : p.MatchesProgram q) (limits : Limits) :
    (ofProgram limits p).Resembles (ofProgram limits q) := by
  obtain ⟨hresult, hevaluator⟩ := Evaluator.resembles_register limits Evaluator.globalScope
    h.definitions Evaluator.global
  rw [ofProgram, ofProgram]
  generalize Evaluator.global.register limits Evaluator.globalScope p.definitions = r,
    Evaluator.global.register limits Evaluator.globalScope q.definitions = r' at *
  obtain ⟨result, e⟩ := r
  obtain ⟨result', e'⟩ := r'
  obtain rfl : e = e' := hevaluator
  cases hresult with
  | malformed kind kind' value => exact ⟨rfl, .malformed kind kind' value⟩
  | same r => exact ⟨rfl, .same _⟩

/-- **Matching programs run alike,** under all limits: they print the same lines and end in the same
way, except that a fault about a malformed node may name another kind. In particular the program of
a source text runs in just the same way after it was written and read back. -/
theorem resembles_ofProgram :
    (∀ (limits : Limits) (p q : Node), p.MatchesProgram q →
        (ofProgram limits p).Resembles (ofProgram limits q)) ∧
      ∀ (limits : Limits) (source : String), ∃ n,
        Node.read? (Reading.ofSource source).program.write = some n ∧
          ofProgram limits n = ofProgram limits (Reading.ofSource source).program := by
  refine ⟨fun limits p q h => resembles_of_matches h limits, fun limits source => ?_⟩
  have hfinite := (Reading.wellFormed_ofDocument ⟨Reading.sourceName, source⟩).finite
  refine ⟨_, Node.read?_write_of_finite hfinite, ?_⟩
  have hmatches := Node.matchesProgram_unplaced (Reading.ofSource source).program
  have hresembles := resembles_of_matches hmatches limits
  exact (hresembles.eq (Reading.formed_ofDocument _ limits)).symm

/-- A program that adds two numbers. -/
def sum : Node :=
  { kind := .program
    children :=
      [{ kind := .expression, value := some (.text "note"), indent := 2 },
        { kind := .definition, value := some (.text "main"), span := .point 3 1
          children :=
            [{ kind := .symbol, value := some (.text "add"), indent := 1
               children :=
                [{ kind := .literal, value := some (.text "1") },
                  { kind := .symbol, value := some (.text "x") }] }] }] }

/-- The same program from elsewhere, with other kinds wherever they do not matter. -/
def sumElsewhere : Node :=
  { kind := .symbol, indent := 4
    children :=
      [{ kind := .symbol, value := some (.text "note") },
        { kind := .definition, value := some (.text "main"), indent := 9
          children :=
            [{ kind := .program, value := some (.text "add"), span := .point 1 1
               children :=
                [{ kind := .literal, value := some (.text "1"), indent := 3 },
                  { kind := .expression, value := some (.text "x") }] }] }] }

theorem resembles_sumElsewhere :
    sum.MatchesProgram sumElsewhere ∧
      ∀ limits, (ofProgram limits sum).Resembles (ofProgram limits sumElsewhere) := by
  have hmatches : sum.MatchesProgram sumElsewhere := by
    refine .cons ⟨?_, by decide⟩ (.cons ⟨?_, by decide⟩ .nil) <;>
      simp [Node.Matches, Node.MatchesAll, NodeKind.Like, NodeKind.isName]
  exact ⟨hmatches, fun limits => resembles_ofProgram.1 limits _ _ hmatches⟩

end Run

end OutlineLisp
