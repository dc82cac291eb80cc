import OutlineLisp.Proofs.Machine.Termination
import OutlineLisp.Proofs.Machine.Transition

/-!
# What is asked of an evaluator

An evaluator is asked to evaluate forms and to call values, one after another, and whoever asks may
change the world in between, for example its scopes. Both kinds of requests are answered by the same
machine and differ only in how it begins.

What the steps of the machine keep holds at every iteration, and so it can be relied on while a
request is answered, however that ends.

## Main definitions

* `Request`, `Request.start`, `Evaluator.answer`: a request, how the machine begins, the answer.
* `Turn`, `Evaluator.serve`: requests with what is done to the world before them.

## Main results

* `Evaluator.answer_eq_finish`: the answer is what the machine leads to.
* `Machine.iterate_keeps`: what holds at every iteration.
-/

namespace OutlineLisp

/-- What an evaluator can be asked for. -/
inductive Request where
  /-- Evaluate a form in a scope. -/
  | eval (form : Form) (scope : ScopeId)
  /-- Call a value with arguments. -/
  | apply (callee : Value) (args : List Value)

/-- The step with which the machine begins to answer a request. -/
def Request.start (limits : Limits) (e : Evaluator) : Request → Machine.Step
  | .eval form scope => .next ⟨.eval form scope, [], e.depth, e.world⟩
  | .apply callee args => Machine.call limits callee args [] e.depth e.world

/-- A request, and what is done to the world before it is made. -/
structure Turn where
  prepare : World → World := id
  request : Request

namespace Evaluator

/-- The answer to a request, and the evaluator after it. -/
def answer (limits : Limits) (e : Evaluator) : Request → Except Fault Value × Evaluator
  | .eval form scope => e.eval limits form scope
  | .apply callee args => e.apply limits callee args

/-- An evaluator that is about to be asked. -/
def prepared (e : Evaluator) (turn : Turn) : Evaluator :=
  { e with world := turn.prepare e.world }

/-- An evaluator after it has answered one request after another. -/
def serve (limits : Limits) (e : Evaluator) (turns : List Turn) : Evaluator :=
  turns.foldl (fun e turn => ((e.prepared turn).answer limits turn.request).2) e

/-- The answer to a request is what the machine leads to. -/
theorem answer_eq_finish (limits : Limits) (e : Evaluator) (r : Request) :
    e.answer limits r
      = (((r.start limits e).finish limits).outcome,
        ⟨e.depth, ((r.start limits e).finish limits).world⟩) := by
  cases r with
  | eval form scope => exact eval_eq_finish limits e form scope
  | apply callee args => exact apply_eq_finish limits e callee args

theorem depth_answer (limits : Limits) (e : Evaluator) (r : Request) :
    (e.answer limits r).2.depth = e.depth := by
  rw [answer_eq_finish]

/-- No request leaves a call in progress, whatever was asked before. -/
theorem depth_serve (limits : Limits) (e : Evaluator) (turns : List Turn) :
    (e.serve limits turns).depth = e.depth := by
  induction turns generalizing e with
  | nil => rfl
  | cons turn turns ih =>
    rw [serve, List.foldl_cons, ← serve, ih, depth_answer]
    rfl

end Evaluator

/-- **What holds at every iteration:** what holds at the first one and is kept by the steps. -/
theorem Machine.iterate_keeps {limits : Limits} {P : Step → Prop}
    (hstep : ∀ s r, P (.next s) → Transition limits s r → P r) {start : Step} (hstart : P start)
    (n : ℕ) : P ((iteration limits)^[n] start) := by
  induction n with
  | zero => exact hstart
  | succ n ih =>
    rw [Function.iterate_succ_apply']
    cases hbefore : (iteration limits)^[n] start with
    | next s => exact hstep s _ (hbefore ▸ ih) (transition_step limits s)
    | stop r => exact (hbefore ▸ ih : P (.stop r))

end OutlineLisp
