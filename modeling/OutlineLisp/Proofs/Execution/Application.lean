import OutlineLisp.Proofs.Execution.History
import OutlineLisp.Proofs.Machine.Agreement
import OutlineLisp.Proofs.Machine.Metering

/-!
# Two ways to call a function

A function can be called from outside, with values as arguments, or by evaluating a call whose
operator and operands are names for them. The second way takes a step for the call and one for each
name, and then goes as the first. So both come to the same, with these steps more.

## Main definitions

* `Evaluator.spend`: an evaluator that has taken some more steps.

## Main results

* `Form.evaluateAll_symbols`: names are evaluated one after another.
* `Evaluator.eval_call_eq_apply`: a call by names and a call from outside.
-/

namespace OutlineLisp

/-- An evaluator that has taken some more steps. -/
def Evaluator.spend (n : ℕ) (e : Evaluator) : Evaluator := { e with world := e.world.spend n }

namespace Form

variable {limits : Limits} {depth : ℕ} {scope : ScopeId} {w : World}

/-! ### Calls by names -/

/-- A name is evaluated in a step. -/
theorem evaluate_symbol {x : String} {v : Value} (h : w.store.lookup? scope x = some v)
    (hsteps : w.steps < limits.steps) :
    (symbol x).evaluate limits depth scope w = (.ok v, w.tick) := by
  rw [evaluate, Limits.exceeded_tick_eq_false_iff.2 hsteps, if_neg Bool.false_ne_true,
    Store.lookup, World.store_tick, h]

/-- Names are evaluated one after another, each in a step. -/
theorem evaluateAll_symbols {names : List String} {args : List Value}
    (h : List.Forall₂ (fun x v => w.store.lookup? scope x = some v) names args)
    (hsteps : w.steps + args.length ≤ limits.steps) :
    evaluateAll limits depth (names.map symbol) scope w = (.ok args, w.spend args.length) := by
  induction names generalizing args w with
  | nil =>
    cases h
    rw [List.map_nil, evaluateAll]
    rfl
  | cons x names ih =>
    cases h with
    | @cons _ v _ args hx hnames =>
      rw [List.length_cons] at hsteps
      have hleft : w.steps < limits.steps := by omega
      have hrest : evaluateAll limits depth (names.map symbol) scope (w.spend 1)
          = (.ok args, (w.spend 1).spend args.length) :=
        ih (w := w.spend 1) hnames (by show w.steps + 1 + args.length ≤ limits.steps; omega)
      rw [List.map_cons, evaluateAll, evaluate_symbol hx hleft, Attempt.andThen_ok,
        ← World.spend_one, hrest, Attempt.andThen_ok, World.spend_spend, List.length_cons,
        Nat.add_comm 1]

/-- A call by names is the call of the value that the first name means. -/
theorem evaluate_call_symbols {f : Value} {name : String} {names : List String} {args : List Value}
    (hf : f.callable = true) (hname : w.store.lookup? scope name = some f)
    (hargs : List.Forall₂ (fun x v => w.store.lookup? scope x = some v) names args)
    (hsteps : w.steps + (args.length + 2) ≤ limits.steps) :
    (call (symbol name) (names.map symbol)).evaluate limits depth scope w
      = f.invoke limits depth args (w.spend (args.length + 2)) fun _ body scope w =>
          body.evaluate limits (depth + 1) scope w := by
  -- A step is taken for the call, then one for the first name, and then one for each other name.
  have hleft : w.steps < limits.steps := by omega
  have hoperator : (symbol name).evaluate limits depth scope w.tick = (.ok f, w.spend 2) :=
    evaluate_symbol hname (by show w.steps + 1 < limits.steps; omega)
  have hoperands : evaluateAll limits depth (names.map symbol) scope (w.spend 2)
      = (.ok args, (w.spend 2).spend args.length) :=
    evaluateAll_symbols (w := w.spend 2) hargs (by
      show w.steps + 2 + args.length ≤ limits.steps
      omega)
  rw [evaluate, Limits.exceeded_tick_eq_false_iff.2 hleft, if_neg Bool.false_ne_true, hoperator,
    Attempt.andThen_ok, if_pos hf, hoperands, Attempt.andThen_ok, World.spend_spend, Nat.add_comm 2]

end Form

namespace Evaluator

open Machine

variable {limits : Limits} {e : Evaluator}

/-- **A call by names and a call from outside** come to the same, if there are enough steps. -/
theorem eval_call_eq_apply {scope : ScopeId} {f : Value} {name : String} {names : List String}
    {args : List Value} (hf : f.callable = true)
    (hname : e.world.store.lookup? scope name = some f)
    (hargs : List.Forall₂ (fun x v => e.world.store.lookup? scope x = some v) names args)
    (hsteps : (e.apply limits f args).2.world.steps + (args.length + 2) ≤ limits.steps) :
    e.eval limits (.call (.symbol name) (names.map .symbol)) scope
        = ((e.apply limits f args).1, (e.apply limits f args).2.spend (args.length + 2)) ∧
      (e.apply limits f args).2.depth = e.depth := by
  have hspent : e.world.steps + (args.length + 2) ≤ limits.steps :=
    (Nat.add_le_add_right (precedes_answer limits e (.apply f args)).steps _).trans hsteps
  have happly := apply_eq_finish limits e f args
  have hworld := congrArg (fun a => a.2.world) happly
  rw [hworld] at hsteps
  -- By recursion, what is left of the call by names is the call itself, some steps later.
  have heval := eval_eq_evaluate limits e (.call (.symbol name) (names.map .symbol)) scope
  rw [Form.evaluate_call_symbols hf hname hargs hspent, ← attempt_finish_call_nil,
    finish_call_spend hsteps] at heval
  exact ⟨heval.trans (by rw [happly]; rfl), congrArg (fun a => a.2.depth) happly⟩

/-- An evaluator whose global scope binds a function. -/
def named : Evaluator := global.define globalScope "f" (idle 7)

/-- The function is called and is its own argument: from outside in one step, by names in four. -/
theorem eval_call_eq_apply_named :
    named.world.store.lookup? globalScope "f" = some (idle 7) ∧
      (named.apply ⟨9, 9⟩ (idle 7) [idle 7]).2.world.steps = 1 ∧
      named.eval ⟨9, 9⟩ (.call (.symbol "f") [.symbol "f"]) globalScope
        = ((named.apply ⟨9, 9⟩ (idle 7) [idle 7]).1,
          (named.apply ⟨9, 9⟩ (idle 7) [idle 7]).2.spend 3) := by
  have hscope : globalScope < global.world.store.size := Nat.one_pos
  have hname : named.world.store.lookup? globalScope "f" = some (idle 7) :=
    lookup?_define_self hscope "f" (idle 7)
  have hargs : List.Forall₂ (fun x v => named.world.store.lookup? globalScope x = some v)
      ["f"] [idle 7] := .cons hname .nil
  have hsteps : (named.apply ⟨9, 9⟩ (idle 7) [idle 7]).2.world.steps = 1 := by
    simp [named, apply_eq_finish, idle, call, run_eq_finish, step, begin, resume, Limits.exceeded,
      World.tick, World.enter, define, Step.finish, steps_global, depth_global]
  have hleft : (named.apply ⟨9, 9⟩ (idle 7) [idle 7]).2.world.steps + 3 ≤ 9 := by
    rw [hsteps]
    decide
  exact ⟨hname, hsteps, (eval_call_eq_apply rfl hname hargs hleft).1⟩

end Evaluator

end OutlineLisp
