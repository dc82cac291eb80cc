import OutlineLisp.Proofs.Machine.Lines
import OutlineLisp.Proofs.Scope.Growth

/-!
# Evaluation never changes a scope

The machine works on scopes in one way only: a call of a closure makes a new one, which binds the
parameters to the arguments at once. So from any moment of a run to any later one the store grows by
such scopes and by nothing else, whatever the scopes are and however the run ends. At the end there
is one for each call of a closure, in the order of the calls. This is what lexical capture rests on:
a closure keeps the number of a scope and not its bindings, and finds there what it would have found
when it was made.

## Main definitions

* `Store.Grows`: a store comes from another by calls of closures.
* `Machine.Call.enter`: the scopes after a call.
* `Machine.scopesAt`: the scopes after a number of iterations.
* `Machine.EnteredBy`, `Machine.KeepsScopes`: what calls and runs do to scopes.

## Main results

* `Machine.Transition.store_eq`: what a step does to scopes.
* `Machine.enteredBy_run`: what a run does to them, call by call.
* `Machine.grows_scopesAt`: what a part of a run does to them.
* `Evaluator.keepsScopes`: evaluations and calls change no scope.
-/

namespace OutlineLisp

namespace Store

/-- Whether a store comes from another by calls of closures, each of which makes one scope. -/
inductive Grows (st : Store) : Store → Prop where
  | refl : Grows st st
  | enter {st' : Store} (h : Grows st st') (c : Closure) (args : List Value) :
    Grows st (st'.child c.scope (c.params.bind args))

variable {st st' st'' : Store}

theorem Grows.trans (h : st.Grows st') (h' : st'.Grows st'') : st.Grows st'' := by
  induction h' with
  | refl => exact h
  | enter _ c args ih => exact .enter ih c args

theorem Grows.keptIn (h : st.Grows st') : st.KeptIn st' := by
  induction h with
  | refl => exact .refl st
  | enter _ c args ih => exact ih.trans (keptIn_child _ _ _)

end Store

namespace Machine

variable {limits : Limits} {stack : List Frame} {depth : ℕ} {w : World} {r : Step}

/-! ### Steps -/

/-- The scopes after a call. That of a closure makes one, inside the scope that the closure has
captured, which binds the parameters to the arguments. -/
def Call.enter (st : Store) : Call → Store
  | ⟨.closure c, args⟩ => st.child c.scope (c.params.bind args)
  | _ => st

/-- The scopes after a step: those after the call that is made, unless it is the last step. -/
def Step.entered (st : Store) (call : Option Call) : Step → Store
  | .next _ => call.toList.foldl Call.enter st
  | .stop _ => st

theorem Begins.store_eq {scope : ScopeId} {form : Form} (h : Begins scope stack depth w form r) :
    r.world.store = w.store := by
  cases h <;> rfl

theorem Calls.store_eq {callee : Value} {args : List Value}
    (h : Calls limits stack depth w callee args r) :
    r.world.store = r.entered w.store (some ⟨callee, args⟩) := by
  cases h with
  | answered h => exact World.store_say _ _
  | entered h | failed h | refused h | notCallable h => rfl

theorem Resumes.store_eq {v : Value} {frame : Frame} (h : Resumes limits v stack depth w frame r) :
    r.world.store = r.entered w.store (frame.call? v) := by
  cases h with
  | consequent _ | alternative _ | missing _ | refused _ | body => rfl
  | @operand operator operand operands scope values hv h =>
    have hlt : values.length < operands.length := (List.getElem?_eq_some_iff.1 h).1
    rw [Frame.call?, if_pos (by simp [hlt])]
    rfl
  | call hv hlast hvalues h =>
    rw [call?_of_reverse_eq hv hlast hvalues]
    exact h.store_eq

/-- **What a step does to scopes:** it makes the scope of a call, if it makes a call and is not the
last one. -/
theorem Transition.store_eq {s : State} (h : Transition limits s r) :
    r.world.store = r.entered s.world.store s.call? := by
  cases h with
  | spent _ | ends _ _ _ => rfl
  | begins h hr =>
    rw [hr.store_eq]
    cases r <;> rfl
  | resumes hr => exact hr.store_eq

theorem Call.grows_enter (st : Store) (c : Call) : st.Grows (c.enter st) := by
  obtain ⟨callee, args⟩ := c
  cases callee with
  | closure c => exact .enter .refl c args
  | _ => exact .refl

theorem Step.grows_entered (st : Store) (call : Option Call) (r : Step) :
    st.Grows (r.entered st call) := by
  cases r with
  | stop r => exact .refl
  | next s =>
    cases call with
    | none => exact .refl
    | some c => exact c.grows_enter st

theorem Calls.grows {callee : Value} {args : List Value}
    (h : Calls limits stack depth w callee args r) : w.store.Grows r.world.store := by
  rw [h.store_eq]
  exact r.grows_entered _ _

theorem Transition.grows {s : State} (h : Transition limits s r) :
    s.world.store.Grows r.world.store := by
  rw [h.store_eq]
  exact r.grows_entered _ _

/-! ### Runs -/

/-- The scopes after a number of iterations. -/
def scopesAt (limits : Limits) (start : Step) (n : ℕ) : Store :=
  ((iteration limits)^[n] start).world.store

theorem grows_iteration (limits : Limits) (r : Step) :
    r.world.store.Grows (iteration limits r).world.store := by
  cases r with
  | next s => exact (transition_step limits s).grows
  | stop r => exact .refl

/-- **What a part of a run does to scopes:** it makes some for the parameters of closures. -/
theorem grows_scopesAt (limits : Limits) (start : Step) {m n : ℕ} (h : m ≤ n) :
    (scopesAt limits start m).Grows (scopesAt limits start n) := by
  induction h with
  | refl => exact .refl
  | step _ ih =>
    rw [scopesAt, scopesAt, Function.iterate_succ_apply']
    exact ih.trans (grows_iteration limits _)

/-- From some moment on the scopes are those at the end. -/
theorem exists_scopesAt_eq (limits : Limits) (start : Step) :
    ∃ n, ∀ m, n ≤ m → scopesAt limits start m = (start.finish limits).world.store := by
  have hstop : ∃ n, StopsWithin limits n start := by
    cases start with
    | next s =>
      obtain ⟨n, hn⟩ := exists_stopsWithin limits.calls s
      exact ⟨n, hn limits.steps⟩
    | stop r => exact ⟨0, stopsWithin_stop 0 r⟩
  obtain ⟨n, hn⟩ := hstop
  refine ⟨n, fun m hm => ?_⟩
  obtain ⟨k, rfl⟩ := Nat.exists_eq_add_of_le' hm
  rw [scopesAt, Function.iterate_add_apply, hn, stopsWithin_stop, Step.finish_stop, Step.world_stop]

/-- From its first step to the end a run makes scopes for the parameters of closures. -/
theorem grows_finish (limits : Limits) (start : Step) :
    start.world.store.Grows (start.finish limits).world.store := by
  obtain ⟨n, hn⟩ := exists_scopesAt_eq limits start
  rw [← hn n n.le_refl]
  exact grows_scopesAt limits start n.zero_le

/-! ### Calls of a run -/

/-- Whether scopes come from others by calls, in their order. Only the last call may be one that is
not entered. -/
def EnteredBy (calls : List Call) (st st' : Store) : Prop :=
  ∃ entered, entered <+: calls ∧ calls.length ≤ entered.length + 1 ∧
    st' = entered.foldl Call.enter st

/-- A step, and then a run. -/
theorem enteredBy_finish {st : Store} {call : Option Call}
    (h : r.world.store = r.entered st call)
    (hrun : ∀ s, r = .next s →
      EnteredBy (calls limits s) s.world.store (run limits s).world.store) :
    EnteredBy (call.toList ++ r.calls limits) st (r.finish limits).world.store := by
  cases r with
  | next s =>
    obtain ⟨entered, hprefix, hlength, hstore⟩ := hrun s rfl
    refine ⟨call.toList ++ entered, (List.prefix_append_right_inj _).2 hprefix, ?_, ?_⟩
    · rw [Step.calls, List.length_append, List.length_append]
      omega
    · rw [List.foldl_append]
      exact hstore.trans (congrArg (entered.foldl Call.enter) h)
  | stop r =>
    refine ⟨[], List.nil_prefix, ?_, h⟩
    rw [Step.calls, List.append_nil]
    exact Option.length_toList_le

/-- **What a run does to scopes,** call by call. -/
theorem enteredBy_run (limits : Limits) (s : State) :
    EnteredBy (calls limits s) s.world.store (run limits s).world.store := by
  induction halts limits s with
  | intro s _ ih =>
    rw [run_eq_finish, calls_eq]
    exact enteredBy_finish (transition_step limits s).store_eq fun t ht => ih t (proceed_of_step ht)

/-- What a run does to scopes that makes calls. It begins with a step, and `before` and `after` are
the scopes before that step and at the end. -/
structure KeepsScopes (limits : Limits) (before : Store) (start : Step) (calls : List Call)
    (after : Store) : Prop where
  /-- Every scope from before is there at the end, with the parent and the bindings that it had. -/
  kept : ∀ id s, before.scope? id = some s → after.scope? id = some s
  /-- The other scopes are those of the calls of closures, in their order: inside the scope that the
  closure has captured, they bind its parameters to the arguments of the call. -/
  new : EnteredBy calls before after
  /-- A scope that is there at some moment stays as it is at every later moment. -/
  settled : ∀ m n, m ≤ n → ∀ id s, (scopesAt limits start m).scope? id = some s →
    (scopesAt limits start n).scope? id = some s
  /-- What a closure finds in the scope that it has captured, or outside of it, stays. -/
  captured : ∀ m n, m ≤ n → ∀ c : Closure, c.scope < (scopesAt limits start m).size → ∀ name,
    (scopesAt limits start n).lookup? c.scope name = (scopesAt limits start m).lookup? c.scope name
  /-- The last of these moments is the end. -/
  ends : ∃ n, ∀ m, n ≤ m → scopesAt limits start m = after

theorem keepsScopes_of_enteredBy {before : Store} {start : Step} {calls : List Call}
    (h : before.Grows start.world.store)
    (hcalls : EnteredBy calls before (start.finish limits).world.store) :
    KeepsScopes limits before start calls (start.finish limits).world.store where
  kept := (h.trans (grows_finish limits start)).keptIn
  new := hcalls
  settled _ _ hmn := (grows_scopesAt limits start hmn).keptIn
  captured _ _ hmn _ hc name := (grows_scopesAt limits start hmn).keptIn.lookup?_eq hc name
  ends := exists_scopesAt_eq limits start

end Machine

namespace Evaluator

open Machine

/-- **Evaluation never changes a scope.** However an evaluation or a call ends, the scopes from
before have the parents and the bindings that they had; a new scope binds the parameters of the
closure to the arguments of the call for which it was made, and from that moment on it stays as it
is, too. So a closure finds in the scope that it has captured what it would have found when it was
made. -/
theorem keepsScopes (limits : Limits) (e : Evaluator) :
    (∀ form scope, KeepsScopes limits e.world.store
      (.next ⟨.eval form scope, [], e.depth, e.world⟩) ((Request.eval form scope).calls limits e)
      (e.eval limits form scope).2.world.store) ∧
    ∀ callee args, KeepsScopes limits e.world.store
      (call limits callee args [] e.depth e.world) ((Request.apply callee args).calls limits e)
      (e.apply limits callee args).2.world.store := by
  constructor
  · intro form scope
    rw [eval_eq_finish]
    exact keepsScopes_of_enteredBy .refl (enteredBy_run limits _)
  · intro callee args
    have hcall : Calls limits [] e.depth e.world callee args
        (call limits callee args [] e.depth e.world) := calls_call callee args [] e.depth e.world
    rw [apply_eq_finish]
    exact keepsScopes_of_enteredBy hcall.grows
      (enteredBy_finish hcall.store_eq fun s _ => enteredBy_run limits s)

end Evaluator

end OutlineLisp
