import OutlineLisp.Execution.Report
import OutlineLisp.Proofs.Execution.Formation
import OutlineLisp.Proofs.Execution.Order
import OutlineLisp.Proofs.Machine.Lines

/-!
# What a run of a source text says

A source text is run for its lines or for a report, and both tell the same. If registration fails,
there is one line, which tells of the fault, whatever else the text defines. Without a `main` that
has a bullet there is one line, too. Otherwise `main` is called; its lines come first, and one more
tells how the call has ended.

## Main definitions

* `Reading.DefinesEntryPoint`: whether the lines of a source text have a `main` with a bullet.
* `Run.lastLine`: what is said after `main`.
* `Report.FollowsProtocol`: what is said, and what is left.

## Main results

* `Evaluator.register_eq_ok_iff`: when registration succeeds.
* `Run.play_of_none`, `Run.play_of_some`: the endings of a run.
* `Report.followsProtocol`: all runs of source texts follow the protocol.
-/

namespace OutlineLisp

namespace Evaluator

variable {limits : Limits} {scope : ScopeId} {definitions : List Node} {e : Evaluator}

/-- **When registration succeeds:** all definitions denote functions, or nothing, and there is a
step for each that has children. -/
theorem register_eq_ok_iff (h : e.world.steps ≤ limits.steps) :
    (register limits scope definitions e).1 = .ok () ↔
      (∀ d ∈ definitions, d.Denotable) ∧
        e.world.steps + definitions.countP (fun d => !d.children.isEmpty) ≤ limits.steps := by
  induction definitions generalizing e with
  | nil => exact ⟨fun _ => ⟨fun d hd => absurd hd List.not_mem_nil, h⟩, fun _ => rfl⟩
  | cons d definitions ih =>
    rw [List.forall_mem_cons]
    cases hd : Lambda.ofDefinition d with
    | error fault =>
      rw [register_cons, hd]
      refine ⟨nofun, ?_⟩
      rintro ⟨⟨⟨o, ho⟩, -⟩, -⟩
      rw [hd] at ho
      cases ho
    | ok o =>
      have hdenotable : d.Denotable := ⟨o, hd⟩
      cases o with
      | none =>
        have hchildren : d.children = [] := Lambda.ofDefinition_eq_none_iff.1 hd
        rw [register_of_none hd, ih h, List.countP_cons_of_neg (by simp [hchildren])]
        simp [hdenotable]
      | some l =>
        have hchildren : d.children ≠ [] := Lambda.children_ne_nil hd
        rw [List.countP_cons_of_pos (by simpa using hchildren)]
        by_cases hlt : e.world.steps < limits.steps
        · have hsteps : (e.bindLambda scope d.boundName l).world.steps = e.world.steps + 1 := rfl
          rw [register_of_lt hd hlt, ih (hsteps ▸ hlt), hsteps, Nat.add_right_comm, Nat.add_assoc]
          simp [hdenotable]
        · rw [register_of_not_lt hd hlt]
          refine ⟨nofun, fun hle => ?_⟩
          omega

/-- No primitive is the entry point. -/
theorem bound?_global_entryPoint :
    global.world.store.bound? globalScope Run.entryPoint = none := by
  rw [bound?_global, if_pos rfl]
  decide

end Evaluator

namespace Reading

/-- Whether the lines of a source text that are read have a heading with the name of the entry point
that is followed by a bullet before the next heading. -/
def DefinesEntryPoint (source : String) : Prop :=
  ∃ s ∈ (Line.ofDocument ⟨sourceName, source⟩).tails.filterMap Section.ofTail?,
    s.heading.name = Run.entryPoint ∧ s.bullets ≠ []

theorem definesEntryPoint_iff (source : String) :
    DefinesEntryPoint source ↔
      ∃ d ∈ (ofSource source).program.definitions, d.children ≠ [] ∧
        d.boundName = Run.entryPoint := by
  have hdefinitions := definitions_ofDocument ⟨sourceName, source⟩
  rw [ofSource, hdefinitions, DefinesEntryPoint]
  simp only [List.mem_map, exists_exists_and_eq_and]
  refine exists_congr fun s => and_congr_right fun _ => ?_
  rw [and_comm, ne_eq, ne_eq, s.children_toNode_eq_nil_iff]
  rfl

end Reading

namespace Run

variable {limits : Limits} {program : Node}

/-- What is said after `main`. -/
def lastLine : Except Fault Value → String
  | .ok _ => completionLine
  | .error fault => "Error: " ++ fault.message

theorem lines_registration (limits : Limits) (program : Node) :
    (registration limits program).2.world.lines = #[] :=
  Evaluator.lines_register limits Evaluator.globalScope program.definitions Evaluator.global

theorem register_eq_registration {u : Except Fault Unit} (h : (registration limits program).1 = u) :
    Evaluator.global.register limits Evaluator.globalScope program.definitions
      = (u, (registration limits program).2) := by
  rw [← h]
  rfl

/-! ### The entry point -/

/-- Whether a value is the closure of a definition with the name of the entry point. -/
def IsEntryPoint (program : Node) (main : Value) : Prop :=
  ∃ d ∈ program.definitions, d.boundName = entryPoint ∧
    ∃ l, Lambda.ofDefinition d = .ok (some l) ∧
      ∃ identity, main = .closure ⟨identity, l.params, l.body, Evaluator.globalScope⟩

/-- After registration the name of the entry point means such a value, if there is a definition with
this name that has children. -/
theorem exists_lookup?_entryPoint (h : (registration limits program).1 = .ok ())
    (hdefines : ∃ d ∈ program.definitions, d.children ≠ [] ∧ d.boundName = entryPoint) :
    ∃ main, IsEntryPoint program main ∧
      (registration limits program).2.world.store.lookup? Evaluator.globalScope entryPoint
        = some main := by
  have hregister := register_eq_registration h
  obtain ⟨v, hv⟩ := Evaluator.exists_bound?_register hregister Nat.one_pos (.inr hdefines)
  refine ⟨v, ?_, Store.lookup?_of_bound? hv⟩
  rcases Evaluator.of_bound?_register hregister Nat.one_pos hv with hglobal | hdefinition
  · rw [Evaluator.bound?_global_entryPoint] at hglobal
    cases hglobal
  · exact hdefinition

/-- Otherwise it means nothing. -/
theorem lookup?_entryPoint_eq_none (h : (registration limits program).1 = .ok ())
    (hdefines : ¬∃ d ∈ program.definitions, d.children ≠ [] ∧ d.boundName = entryPoint) :
    (registration limits program).2.world.store.lookup? Evaluator.globalScope entryPoint
      = none := by
  have hparent : (registration limits program).2.world.store.parent? Evaluator.globalScope = none :=
    Store.parent?_zero _
  rw [Store.lookup?_eq_or, hparent, Option.bind_none, Option.or_none]
  refine Option.eq_none_iff_forall_ne_some.2 fun v hv => ?_
  rcases Evaluator.of_bound?_register (register_eq_registration h) Nat.one_pos hv with
    hglobal | ⟨d, hd, hname, l, hl, -⟩
  · rw [Evaluator.bound?_global_entryPoint] at hglobal
    cases hglobal
  · exact hdefines ⟨d, hd, Lambda.children_ne_nil hl, hname⟩

/-! ### The endings of a run -/

/-- Without an entry point there is only the line that tells so. -/
theorem ofProgram_of_lookup?_eq_none (h : (registration limits program).1 = .ok ())
    (hmain : (registration limits program).2.world.store.lookup? Evaluator.globalScope entryPoint
      = none) : ofProgram limits program = ⟨.ok .noEntryPoint, [noEntryPointLine]⟩ := by
  rw [← ofPlay_play, play, h, playRegistered, hmain]
  simp [ofPlay, closingLine?, Machine.lines_say, lines_registration]

/-- What a run says that calls `main`, whatever the call ends with. -/
theorem ofProgram_of_lookup?_eq_some (h : (registration limits program).1 = .ok ()) {main : Value}
    (hmain : (registration limits program).2.world.store.lookup? Evaluator.globalScope entryPoint
      = some main) :
    (ofProgram limits program).outcome
        = ((registration limits program).2.apply limits main []).1.map .finished ∧
      (ofProgram limits program).transcript
        = ((Request.apply main []).calls limits (registration limits program).2).filterMap
            Machine.Call.line?
          ++ [lastLine ((registration limits program).2.apply limits main []).1] := by
  have hlines := Evaluator.lines_answer limits (registration limits program).2
    (.apply main [])
  rw [lines_registration, List.nil_append] at hlines
  rw [← ofPlay_play, play, h, playRegistered, hmain]
  refine ⟨rfl, ?_⟩
  rw [← hlines]
  cases houtcome : ((registration limits program).2.apply limits main []).1 with
  | ok v =>
    simp [ofPlay, transcript, closingLine?, lastLine, houtcome, Machine.lines_say]
    rfl
  | error fault =>
    simp [ofPlay, transcript, closingLine?, lastLine, houtcome, Machine.lines_say]
    rfl

end Run

namespace Report

open Run in
/-- What is said and left when a source text that reads as a program is run for its lines and for a
report. -/
structure FollowsProtocol (limits : Limits) (source : String) (program : Node)
    (performance : Performance) (report : Report) : Prop where
  /-- Run for its lines, it says what the report tells. -/
  lines : performance.lines = report.output
  /-- Either way the same program is left. -/
  programs : performance.program = report.program
  /-- It is the program that was read, and with a fault there is none. -/
  program_eq : report.program = if report.success then some program else none
  /-- Registration succeeds if all definitions compile and there is a step for each that has
  children. -/
  registered_iff : (registration limits program).1 = .ok () ↔
    (∀ d ∈ program.definitions, d.Denotable) ∧
      program.definitions.countP (fun d => !d.children.isEmpty) ≤ limits.steps
  /-- If it fails, the fault is that of a definition, or no step is left, and there is one line. -/
  refused : ∀ fault, (registration limits program).1 = .error fault →
    ((∃ d ∈ program.definitions, Lambda.ofDefinition d = .error fault) ∨
      fault = .exhausted (.steps limits.steps)) ∧
    report.success = false ∧ report.output = ["Error: " ++ fault.message]
  /-- Without an entry point there is one line, too. -/
  noEntryPoint : (registration limits program).1 = .ok () → ¬Reading.DefinesEntryPoint source →
    report.success = true ∧ report.output = [noEntryPointLine]
  /-- Otherwise it is called. The lines of the call come in order, and then one more; there is
  success if the call returns. -/
  called : (registration limits program).1 = .ok () → Reading.DefinesEntryPoint source →
    ∃ main, IsEntryPoint program main ∧
      (report.success = true ↔
        ∃ v, ((registration limits program).2.apply limits main []).1 = .ok v) ∧
      report.output
        = ((Request.apply main []).calls limits (registration limits program).2).filterMap
            Machine.Call.line?
          ++ [lastLine ((registration limits program).2.apply limits main []).1]

theorem success_ofSource (limits : Limits) (source : String) :
    (ofSource limits source).success
      = (Run.ofProgram limits (Reading.ofSource source).program).succeeded := by
  rw [ofSource]

theorem output_ofSource (limits : Limits) (source : String) :
    (ofSource limits source).output
      = (Run.ofProgram limits (Reading.ofSource source).program).transcript := by
  rw [ofSource]

theorem program_ofSource (limits : Limits) (source : String) :
    (ofSource limits source).program
      = if (ofSource limits source).success then some (Reading.ofSource source).program
        else none := by
  rw [ofSource]

/-- **Runs of source texts follow the protocol,** under all limits. -/
theorem followsProtocol (limits : Limits) (source : String) :
    FollowsProtocol limits source (Reading.ofSource source).program
      (Performance.ofSource limits source) (ofSource limits source) where
  lines := by
    rw [output_ofSource, Performance.ofSource, Run.transcript]
    generalize Run.ofProgram limits (Reading.ofSource source).program = run
    cases run.outcome <;> rfl
  programs := by
    rw [program_ofSource, success_ofSource, Performance.ofSource, Run.succeeded]
    generalize Run.ofProgram limits (Reading.ofSource source).program = run
    cases run.outcome <;> rfl
  program_eq := program_ofSource limits source
  registered_iff := by
    rw [Run.registration, Evaluator.register_eq_ok_iff limits.steps.zero_le, Evaluator.steps_global,
      Nat.zero_add]
  refused fault h := by
    have hregister := Run.register_eq_registration h
    have hrun := Run.ofProgram_of_registration h
    rw [success_ofSource, output_ofSource, hrun]
    exact ⟨Evaluator.denoted_of_register_eq_error hregister, rfl, rfl⟩
  noEntryPoint h hnot := by
    rw [Reading.definesEntryPoint_iff] at hnot
    have hrun := Run.ofProgram_of_lookup?_eq_none h (Run.lookup?_entryPoint_eq_none h hnot)
    rw [success_ofSource, output_ofSource, hrun]
    exact ⟨rfl, rfl⟩
  called h hdefines := by
    rw [Reading.definesEntryPoint_iff] at hdefines
    obtain ⟨main, hentry, hmain⟩ := Run.exists_lookup?_entryPoint h hdefines
    obtain ⟨houtcome, htranscript⟩ := Run.ofProgram_of_lookup?_eq_some h hmain
    rw [success_ofSource, output_ofSource, htranscript, Run.succeeded, houtcome]
    refine ⟨main, hentry, ?_, rfl⟩
    generalize (Run.registration limits (Reading.ofSource source).program).2 = e
    cases (e.apply limits main []).1 with
    | ok v => exact iff_of_true rfl ⟨v, rfl⟩
    | error fault => exact iff_of_false Bool.false_ne_true (by rintro ⟨v, ⟨⟩⟩)

end Report

end OutlineLisp
