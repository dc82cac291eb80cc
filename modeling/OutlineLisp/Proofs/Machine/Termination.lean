import Mathlib.Logic.Function.Iterate
import OutlineLisp.Machine.Evaluator

/-!
# Every evaluation terminates

The machine comes to its end after a number of iterations that the limit on steps cannot change:
the number is found for the machine without that limit, and a limit can only stop it earlier. So it
is the limit on calls alone that makes programs stop, even those that call themselves for ever.

## Main definitions

* `Machine.iteration`: one iteration of the loop that drives the machine.
* `Machine.StopsWithin`: stopping within a number of iterations.

## Main results

* `Machine.exists_stopsWithin`: the number of iterations from any state.
* `Evaluator.apply_eq_finish`: a call from outside leaves no call in progress.
* `Evaluator.terminates`: evaluations and calls come to an end, and the end is what they answer.
-/

namespace OutlineLisp

namespace Machine

/-- One iteration of the loop that drives the machine. A machine that has stopped stays so. -/
def iteration (limits : Limits) : Step → Step
  | .next s => step limits s
  | .stop r => .stop r

/-- Whether a machine has stopped after a number of iterations, with the result that a run to the
end has. -/
def StopsWithin (limits : Limits) (n : ℕ) (start : Step) : Prop :=
  (iteration limits)^[n] start = .stop (start.finish limits)

variable {limits : Limits}

theorem stopsWithin_stop (n : ℕ) (r : Result) : StopsWithin limits n (.stop r) :=
  Function.iterate_fixed rfl n

theorem StopsWithin.succ {n : ℕ} {s : State} (h : StopsWithin limits n (step limits s)) :
    StopsWithin limits (n + 1) (.next s) := by
  rw [StopsWithin, Function.iterate_succ_apply, Step.finish_next, run_eq_finish]
  exact h

/-- Without the limit on steps the machine does not look at it. -/
theorem proceed_steps (steps steps' calls : ℕ) (s : State) :
    proceed ⟨steps, calls⟩ s = proceed ⟨steps', calls⟩ s := rfl

theorem call_steps (steps steps' calls : ℕ) (callee : Value) (args : List Value)
    (stack : List Frame) (depth : ℕ) (w : World) :
    call ⟨steps, calls⟩ callee args stack depth w
      = call ⟨steps', calls⟩ callee args stack depth w :=
  rfl

/-- **The limit on steps is not needed:** from every state there is a number of iterations within
which the machine stops, whatever that limit is. The induction is on the machine without it. -/
theorem exists_stopsWithin (calls : ℕ) (s : State) :
    ∃ n, ∀ steps, StopsWithin ⟨steps, calls⟩ n (.next s) := by
  induction halts ⟨0, calls⟩ s with
  | intro s _ ih =>
    cases hp : proceed ⟨0, calls⟩ s with
    | stop r =>
      refine ⟨1, fun steps => StopsWithin.succ ?_⟩
      rcases step_eq_proceed_or ⟨steps, calls⟩ s with h | ⟨r', h⟩
      · rw [h, proceed_steps steps 0, hp]
        exact stopsWithin_stop 0 r
      · rw [h]
        exact stopsWithin_stop 0 r'
    | next t =>
      obtain ⟨n, hn⟩ := ih t hp
      refine ⟨n + 1, fun steps => StopsWithin.succ ?_⟩
      rcases step_eq_proceed_or ⟨steps, calls⟩ s with h | ⟨r', h⟩
      · rw [h, proceed_steps steps 0, hp]
        exact hn steps
      · rw [h]
        exact stopsWithin_stop n r'

/-! ### Calls from outside -/

/-- A call that begins leaves the calls below it as they are. -/
theorem base_of_call {callee : Value} {args : List Value} {depth : ℕ} {w : World} {s : State}
    (h : call limits callee args [] depth w = .next s) : s.base = depth := by
  cases callee with
  | primitive p =>
    simp only [call] at h
    split at h
    · cases h; rfl
    · cases h
  | closure c =>
    simp only [call] at h
    split at h
    · cases h
    · cases h; rfl
  | _ => cases h

/-- A call that fails at once fails at the depth at which it was made. -/
theorem depth_of_call {callee : Value} {args : List Value} {stack : List Frame} {depth : ℕ}
    {w : World} {r : Result} (h : call limits callee args stack depth w = .stop r) :
    r.depth = depth := by
  cases callee with
  | primitive p =>
    simp only [call] at h
    split at h
    · cases h
    · cases h; rfl
  | closure c =>
    simp only [call] at h
    split at h
    · cases h; rfl
    · cases h
  | _ => cases h; rfl

end Machine

namespace Evaluator

open Machine

theorem eval_eq_finish (limits : Limits) (e : Evaluator) (form : Form) (scope : ScopeId) :
    e.eval limits form scope
      = (((Step.next ⟨.eval form scope, [], e.depth, e.world⟩).finish limits).outcome,
        ⟨e.depth, ((Step.next ⟨.eval form scope, [], e.depth, e.world⟩).finish limits).world⟩) :=
  rfl

theorem apply_eq_finish (limits : Limits) (e : Evaluator) (callee : Value) (args : List Value) :
    e.apply limits callee args
      = (((call limits callee args [] e.depth e.world).finish limits).outcome,
        ⟨e.depth, ((call limits callee args [] e.depth e.world).finish limits).world⟩) := by
  rw [apply]
  cases h : call limits callee args [] e.depth e.world with
  | next s =>
    simp only [drive, base_of_call h]
    rfl
  | stop r =>
    simp only [depth_of_call h]
    rfl

/-- **Every evaluation terminates,** and so does every call from outside: within some number of
iterations the machine has stopped, and the evaluator answers what it stopped with. The number is
found before the limit on steps is known, so the machine stops without such a limit, too. -/
theorem terminates (calls : ℕ) (e : Evaluator) :
    (∀ form scope, ∃ n, ∀ steps, ∃ r : Result,
      (iteration ⟨steps, calls⟩)^[n] (.next ⟨.eval form scope, [], e.depth, e.world⟩) = .stop r ∧
        e.eval ⟨steps, calls⟩ form scope = (r.outcome, ⟨e.depth, r.world⟩)) ∧
    ∀ callee args, ∃ n, ∀ steps, ∃ r : Result,
      (iteration ⟨steps, calls⟩)^[n] (call ⟨steps, calls⟩ callee args [] e.depth e.world)
          = .stop r ∧
        e.apply ⟨steps, calls⟩ callee args = (r.outcome, ⟨e.depth, r.world⟩) := by
  constructor
  · intro form scope
    obtain ⟨n, hn⟩ := exists_stopsWithin calls ⟨.eval form scope, [], e.depth, e.world⟩
    exact ⟨n, fun steps => ⟨_, hn steps, eval_eq_finish _ e form scope⟩⟩
  · intro callee args
    have hcall (steps : ℕ) := call_steps steps 0 calls callee args [] e.depth e.world
    cases h : call ⟨0, calls⟩ callee args [] e.depth e.world with
    | next s =>
      obtain ⟨n, hn⟩ := exists_stopsWithin calls s
      refine ⟨n, fun steps => ⟨_, ?_, apply_eq_finish _ e callee args⟩⟩
      rw [hcall, h]
      exact hn steps
    | stop r =>
      refine ⟨0, fun steps => ⟨_, ?_, apply_eq_finish _ e callee args⟩⟩
      rw [hcall, h]
      exact stopsWithin_stop 0 r

end Evaluator

end OutlineLisp
