import OutlineLisp.Execution.Registration
import OutlineLisp.Proofs.Machine.Transition

/-!
# What registration does

Registering a definition takes one step: the function that it denotes becomes a closure, and the
scope binds the definition's name to it. No call is made and nothing is said.

## Main definitions

* `Evaluator.bindLambda`: an evaluator after one definition.

## Main results

* `Evaluator.eval_toForm`: how a function becomes a closure.
* `Evaluator.register_cons`: registration, one definition at a time.
-/

namespace OutlineLisp

namespace Evaluator

open Machine

variable {limits : Limits}

/-- An evaluator after a function has become a closure under a name. -/
def bindLambda (e : Evaluator) (scope : ScopeId) (name : String) (l : Lambda) : Evaluator :=
  define { e with world := e.world.tick.draw } scope name
    (.closure ⟨e.world.fresh, l.params, l.body, scope⟩)

/-- A function becomes a closure in one step, if that step is left. -/
theorem eval_toForm (limits : Limits) (e : Evaluator) (l : Lambda) (scope : ScopeId) :
    e.eval limits l.toForm scope
      = if e.world.steps < limits.steps then
          (.ok (.closure ⟨e.world.fresh, l.params, l.body, scope⟩),
            { e with world := e.world.tick.draw })
        else (.error (.exhausted (.steps limits.steps)), { e with world := e.world.tick }) := by
  rw [eval, drive, run_eq_finish, step]
  simp only [Limits.exceeded_tick_iff]
  by_cases h : e.world.steps < limits.steps
  · rw [if_pos h, if_neg (Nat.not_le.2 h), Lambda.toForm, begin, Step.finish_next, run_eq_finish]
    rfl
  · rw [if_neg h, if_pos (Nat.le_of_not_lt h)]
    rfl

/-- Registration, one definition at a time. -/
theorem register_cons (limits : Limits) (scope : ScopeId) (definition : Node)
    (definitions : List Node) (e : Evaluator) :
    register limits scope (definition :: definitions) e
      = match Lambda.ofDefinition definition with
        | .error fault => (.error fault, e)
        | .ok none => register limits scope definitions e
        | .ok (some l) =>
          if e.world.steps < limits.steps then
            register limits scope definitions
              (e.bindLambda scope (definition.text?.getD "") l)
          else (.error (.exhausted (.steps limits.steps)), { e with world := e.world.tick }) := by
  rw [register]
  cases Lambda.ofDefinition definition with
  | error fault => rfl
  | ok o =>
    cases o with
    | none => rfl
    | some l =>
      simp only [eval_toForm]
      by_cases h : e.world.steps < limits.steps
      · simp only [if_pos h]
        rfl
      · simp only [if_neg h]

/-- Registration says nothing. -/
theorem lines_register (limits : Limits) (scope : ScopeId) (definitions : List Node)
    (e : Evaluator) : (register limits scope definitions e).2.world.lines = e.world.lines := by
  induction definitions generalizing e with
  | nil => rfl
  | cons definition definitions ih =>
    rw [register_cons]
    split
    · rfl
    · exact ih e
    · split
      · exact ih _
      · rfl

/-- Registration makes no call. -/
theorem depth_register (limits : Limits) (scope : ScopeId) (definitions : List Node)
    (e : Evaluator) : (register limits scope definitions e).2.depth = e.depth := by
  induction definitions generalizing e with
  | nil => rfl
  | cons definition definitions ih =>
    rw [register_cons]
    split
    · rfl
    · exact ih e
    · split
      · exact ih _
      · rfl

end Evaluator

end OutlineLisp
