import OutlineLisp.Execution.Registration
import OutlineLisp.Tree.Program

/-!
# Runs

A run registers the definitions of a program and calls `main` without arguments. It says the lines
that the program prints, and one more line that tells how it ended. A fault ends the run; the run
itself says nothing about it, but whoever runs a source text is told in a last line.

## Main definitions

* `Run.ofProgram`: the run of a program tree.
* `Run.transcript`: all lines of a run of a source text.
-/

namespace OutlineLisp

/-- How a run that met no fault ended. -/
inductive Ending where
  /-- `main` returned a value. -/
  | finished (v : Value)
  /-- There is no `main`. -/
  | noEntryPoint

/-- A run of a program. -/
structure Run where
  outcome : Except Fault Ending
  /-- The lines said by the program and by the run itself. -/
  lines : List String

namespace Run

/-- The definition that a run calls. -/
def entryPoint : String := "main"

/-- What is said after `main` has returned. -/
def completionLine : String := "--- Execution Finished ---"

/-- What is said if there is no `main`. -/
def noEntryPointLine : String := "No '# main' definition found."

/-- The run of a program whose definitions have been registered. -/
def ofRegistered (limits : Limits) (e : Evaluator) : Run :=
  match e.world.store.lookup? Evaluator.globalScope entryPoint with
  | none => ⟨.ok .noEntryPoint, (e.world.say (some noEntryPointLine)).lines.toList⟩
  | some main =>
    match e.apply limits main [] with
    | (.ok v, e) => ⟨.ok (.finished v), (e.world.say (some completionLine)).lines.toList⟩
    | (.error fault, e) => ⟨.error fault, e.world.lines.toList⟩

/-- The run of a program. -/
def ofProgram (limits : Limits) (program : Node) : Run :=
  match Evaluator.global.register limits Evaluator.globalScope program.definitions with
  | (.ok _, e) => ofRegistered limits e
  | (.error fault, e) => ⟨.error fault, e.world.lines.toList⟩

/-- Whether a run met no fault. -/
def succeeded (r : Run) : Bool :=
  match r.outcome with
  | .ok _ => true
  | .error _ => false

/-- The line that tells of a fault. -/
def faultLine (fault : Fault) : String := "Error: " ++ fault.message

/-- All lines of a run, the last one telling of a fault if there was one. -/
def transcript (r : Run) : List String :=
  match r.outcome with
  | .ok _ => r.lines
  | .error fault => r.lines ++ [faultLine fault]

end Run

end OutlineLisp
