import OutlineLisp.Proofs.Machine.Metering
import OutlineLisp.Proofs.Machine.References

/-!
# Evaluators without a past

An evaluator may be used for a long time, and what it was asked before may have ended in any way,
even in the middle of calls in calls. Of all this nothing is left but the scopes and the steps
taken. It answers as a new evaluator would that starts with these scopes and is allowed the steps
that are left. Once no step is left, nothing is evaluated any more.

## Main definitions

* `Evaluator.renewed`, `Evaluator.left`: a new evaluator with the same scopes, and the limits left.
* `Evaluator.AnswersAfresh`: a request is answered as by the new evaluator.
* `Evaluator.Refuses`: a request is refused since no step is left.
* `Evaluator.WithoutPast`: what the past of an evaluator amounts to.

## Main results

* `Evaluator.answer_eq_after`: an answer after some steps and lines.
* `Evaluator.answersAfresh_of_steps_le`: requests are answered afresh while steps are left.
* `Evaluator.refuses_eval`, `Evaluator.refuses_apply`: and then they are refused.
* `Evaluator.withoutPast`: both, after any use of an evaluator.
-/

namespace OutlineLisp

/-- Whether what is done to the world before a request takes no step back. -/
def Turn.CountsOn (turn : Turn) : Prop := ∀ w, w.steps ≤ (turn.prepare w).steps

namespace Evaluator

open Machine

variable {limits : Limits} {e : Evaluator}

/-- A new evaluator with the same scopes. It has taken no step and said nothing. -/
def renewed (e : Evaluator) : Evaluator := { world := { e.world with steps := 0, lines := #[] } }

/-- The limits with only the steps that are left. -/
def left (limits : Limits) (e : Evaluator) : Limits :=
  { limits with steps := limits.steps - e.world.steps }

theorem after_renewed (e : Evaluator) :
    e.renewed.world.after e.world.steps e.world.lines = e.world := by
  rw [renewed, World.after, Nat.add_zero, Array.append_empty]

theorem extend_left (h : e.world.steps ≤ limits.steps) :
    (left limits e).extend e.world.steps = limits := by
  rw [left, Limits.extend, Nat.add_sub_cancel' h]

/-! ### Answers -/

/-- A request begins as with a new evaluator. -/
theorem start_eq_after (h : e.world.steps ≤ limits.steps) (hdepth : e.depth = 0) (r : Request) :
    r.start limits e = (r.start (left limits e) e.renewed).after limits.steps e.world.steps
      e.world.lines := by
  cases r with
  | eval form scope =>
    show Step.next _ = Step.next ⟨_, _, _, e.renewed.world.after e.world.steps e.world.lines⟩
    rw [after_renewed, hdepth]
    rfl
  | apply callee args =>
    have hcall : call ((left limits e).extend e.world.steps) callee args [] 0
          (e.renewed.world.after e.world.steps e.world.lines)
        = (call (left limits e) callee args [] 0 e.renewed.world).after limits.steps e.world.steps
          e.world.lines := call_after _ _ _ _ _ _
    rw [after_renewed, extend_left h] at hcall
    rw [Request.start, hdepth, hcall]
    rfl

/-- **An answer after some steps and lines.** -/
theorem answer_eq_after (h : e.world.steps ≤ limits.steps) (hdepth : e.depth = 0) (r : Request) :
    e.answer limits r
      = ((e.renewed.answer (left limits e) r).1.mapError (Fault.withLimit limits.steps),
        ⟨0, (e.renewed.answer (left limits e) r).2.world.after e.world.steps e.world.lines⟩) := by
  have hfinish : ((r.start (left limits e) e.renewed).after
        ((left limits e).extend e.world.steps).steps e.world.steps e.world.lines).finish
          ((left limits e).extend e.world.steps)
      = ((r.start (left limits e) e.renewed).finish (left limits e)).after
          ((left limits e).extend e.world.steps).steps e.world.steps e.world.lines :=
    finish_after _
  rw [extend_left h] at hfinish
  rw [answer_eq_finish, answer_eq_finish, start_eq_after h hdepth, hfinish, hdepth]
  rfl

/-- Whether a request is answered as by a new evaluator with the same scopes, under a limit on steps
that is lower by the steps taken. -/
structure AnswersAfresh (limits : Limits) (e : Evaluator) (r : Request) : Prop where
  /-- There is the same value or the same fault, up to the limit on steps that it shows. -/
  outcome : (e.answer limits r).1
    = (e.renewed.answer (left limits e) r).1.mapError (Fault.withLimit limits.steps)
  /-- The same lines are said. -/
  lines : (e.answer limits r).2.world.lines
    = e.world.lines ++ (e.renewed.answer (left limits e) r).2.world.lines
  /-- The scopes are the same afterwards. -/
  store : (e.answer limits r).2.world.store
    = (e.renewed.answer (left limits e) r).2.world.store
  /-- So is the next identity. -/
  fresh : (e.answer limits r).2.world.fresh
    = (e.renewed.answer (left limits e) r).2.world.fresh
  /-- Just as many steps are taken. -/
  steps : (e.answer limits r).2.world.steps
    = e.world.steps + (e.renewed.answer (left limits e) r).2.world.steps
  /-- No call is in progress afterwards. -/
  depth : (e.answer limits r).2.depth = 0

theorem answersAfresh_of_steps_le (h : e.world.steps ≤ limits.steps) (hdepth : e.depth = 0)
    (r : Request) : AnswersAfresh limits e r := by
  have hanswer := answer_eq_after h hdepth r
  exact
    { outcome := congrArg Prod.fst hanswer
      lines := congrArg (fun a => a.2.world.lines) hanswer
      store := congrArg (fun a => a.2.world.store) hanswer
      fresh := congrArg (fun a => a.2.world.fresh) hanswer
      steps := congrArg (fun a => a.2.world.steps) hanswer
      depth := congrArg (fun a => a.2.depth) hanswer }

/-! ### No step is left -/

/-- Whether a request is refused because no step is left: nothing is said, and no scope changes. -/
structure Refuses (limits : Limits) (e : Evaluator) (r : Request) : Prop where
  outcome : (e.answer limits r).1 = .error (.exhausted (.steps limits.steps))
  lines : (e.answer limits r).2.world.lines = e.world.lines
  kept : e.world.store.KeptIn (e.answer limits r).2.world.store

/-- A form is not even begun. -/
theorem run_eval_of_spent {w : World} (h : limits.steps ≤ w.steps) (form : Form) (scope : ScopeId)
    (stack : List Frame) (depth : ℕ) :
    run limits ⟨.eval form scope, stack, depth, w⟩
      = ⟨.error (.exhausted (.steps limits.steps)), depth, w.tick⟩ := by
  rw [run_eq_finish, step, Limits.exceeded_tick_iff.2 h, if_pos rfl]
  rfl

theorem refuses_of_finish_eq {r : Request} {depth : ℕ} {w : World}
    (h : (r.start limits e).finish limits
      = ⟨.error (.exhausted (.steps limits.steps)), depth, w.tick⟩)
    (hlines : w.lines = e.world.lines) : Refuses limits e r := by
  have hkept := (grows_answer limits e r).keptIn
  have hanswer := answer_eq_finish limits e r
  rw [h] at hanswer
  exact
    { outcome := congrArg Prod.fst hanswer
      lines := (congrArg (fun a => a.2.world.lines) hanswer).trans hlines
      kept := hkept }

theorem refuses_eval (h : limits.steps ≤ e.world.steps) (form : Form) (scope : ScopeId) :
    Refuses limits e (.eval form scope) :=
  refuses_of_finish_eq (run_eval_of_spent h form scope [] e.depth) rfl

theorem refuses_apply (h : limits.steps ≤ e.world.steps) (hdepth : e.depth < limits.calls)
    (c : Closure) (args : List Value) : Refuses limits e (.apply (.closure c) args) := by
  have hstart : (Request.apply (.closure c) args).start limits e
      = .next ⟨.eval c.body e.world.store.size, [.body], e.depth + 1,
          e.world.enter c.scope (c.params.bind args)⟩ := by
    rw [Request.start, call, if_neg (Nat.not_le.2 hdepth)]
  have hspent : limits.steps ≤ (e.world.enter c.scope (c.params.bind args)).steps := h
  have hrun := run_eval_of_spent hspent c.body e.world.store.size [.body] (e.depth + 1)
  exact refuses_of_finish_eq ((congrArg (Step.finish limits) hstart).trans hrun) rfl

/-- Steps are never taken back. -/
theorem steps_le_serve (limits : Limits) (e : Evaluator) {turns : List Turn}
    (h : ∀ turn ∈ turns, turn.CountsOn) : e.world.steps ≤ (e.serve limits turns).world.steps := by
  induction turns generalizing e with
  | nil => exact Nat.le_refl _
  | cons turn turns ih =>
    obtain ⟨hturn, hturns⟩ := List.forall_mem_cons.1 h
    have hanswer := (precedes_answer limits (e.prepared turn) turn.request).steps
    exact ((hturn e.world).trans hanswer).trans (ih _ hturns)

/-! ### Without a past -/

/-- What the past of an evaluator amounts to: the steps that have been taken. -/
structure WithoutPast (limits : Limits) (e : Evaluator) : Prop where
  /-- As long as the steps are not more than allowed, requests are answered afresh. -/
  afresh : e.world.steps ≤ limits.steps → ∀ r, AnswersAfresh limits e r
  /-- Once no step is left, forms are refused, whatever else is asked first. -/
  refusesEval : limits.steps ≤ e.world.steps → ∀ later, (∀ turn ∈ later, turn.CountsOn) →
    ∀ form scope, Refuses limits (e.serve limits later) (.eval form scope)
  /-- So are calls of closures, if calls are allowed at all. -/
  refusesApply : limits.steps ≤ e.world.steps → 0 < limits.calls → ∀ later,
    (∀ turn ∈ later, turn.CountsOn) → ∀ c args,
      Refuses limits (e.serve limits later) (.apply (.closure c) args)

theorem withoutPast_of_depth_eq (limits : Limits) (hdepth : e.depth = 0) :
    WithoutPast limits e where
  afresh h r := answersAfresh_of_steps_le h hdepth r
  refusesEval h later hlater form scope :=
    refuses_eval (h.trans (steps_le_serve limits e hlater)) form scope
  refusesApply h hcalls later hlater c args := by
    have hserve : (e.serve limits later).depth = 0 := (depth_serve limits e later).trans hdepth
    exact refuses_apply (h.trans (steps_le_serve limits e hlater)) (hserve ▸ hcalls) c args

/-- **Evaluators have no past** but the scopes and the steps taken. An evaluator is new, in a world
of any kind, and is asked for one thing after another, with success or not. Then it answers as a new
evaluator would, until its steps are used up, and after that it refuses. -/
theorem withoutPast (limits : Limits) (w : World) (earlier : List Turn) :
    WithoutPast limits (serve limits ⟨0, w⟩ earlier) :=
  withoutPast_of_depth_eq limits (depth_serve limits ⟨0, w⟩ earlier)

/-- A single scope, which binds nothing. -/
def bareStore : Store := Store.empty.root []

theorem lookup_child_bareStore (name : String) :
    (bareStore.child 0 []).lookup 1 name = .error (.unbound name) := by
  have hroot : bareStore.lookup? 0 name = none := by
    rw [Store.lookup?_eq_or, Store.parent?_zero]
    rfl
  have hchild : (bareStore.child 0 []).lookup? 1 name = none :=
    (Store.lookup?_child_self bareStore 0 [] name).trans hroot
  rw [Store.lookup, hchild]

/-- A call of a function whose body is a name. -/
def callOfName : Request := .eval (.call (.lambda .nullary (.symbol "x")) []) 0

/-- An evaluator that is allowed four steps, after three of them have led to a fault in a call. -/
def faulted : Evaluator := serve ⟨4, 1⟩ ⟨0, { store := bareStore }⟩ [⟨id, callOfName⟩]

theorem answer_callOfName :
    answer ⟨4, 1⟩ ⟨0, { store := bareStore }⟩ callOfName
      = (.error (.unbound "x"),
        ⟨0, { store := bareStore.child 0 [], fresh := 1, steps := 3 }⟩) := by
  have hsize : bareStore.size = 1 := rfl
  have hbind : Params.nullary.bind [] = [] := rfl
  rw [answer_eq_finish]
  simp [callOfName, Request.start, run_eq_finish, step, begin, resume, collect, call, fail,
    Limits.exceeded, World.tick, World.draw, World.enter, Value.callable, hsize, hbind,
    lookup_child_bareStore]

/-- The last step is left after the fault, and so one more form has a value, as with a new evaluator
that is allowed one step. Then a form is refused. -/
theorem withoutPast_faulted :
    (answer ⟨4, 1⟩ ⟨0, { store := bareStore }⟩ callOfName).1 = .error (.unbound "x") ∧
      faulted.world.steps = 3 ∧ WithoutPast ⟨4, 1⟩ faulted ∧
      (faulted.answer ⟨4, 1⟩ (.eval (.text "a") 0)).1 = .ok (.text "a") ∧
      AnswersAfresh ⟨4, 1⟩ faulted (.eval (.text "a") 0) ∧
      Refuses ⟨4, 1⟩ (faulted.serve ⟨4, 1⟩ [⟨id, .eval (.text "a") 0⟩]) (.eval (.text "b") 0) := by
  have hsteps : faulted.world.steps = 3 := congrArg (fun a => a.2.world.steps) answer_callOfName
  have hanswer : (faulted.answer ⟨4, 1⟩ (.eval (.text "a") 0)).1 = .ok (.text "a") ∧
      (faulted.answer ⟨4, 1⟩ (.eval (.text "a") 0)).2.world.steps = 4 := by
    rw [answer_eq_finish]
    simp [Request.start, run_eq_finish, step, begin, Limits.exceeded, World.tick, hsteps]
  have h : WithoutPast ⟨4, 1⟩ faulted :=
    withoutPast ⟨4, 1⟩ { store := bareStore } [⟨id, callOfName⟩]
  have hspent : WithoutPast ⟨4, 1⟩ (faulted.serve ⟨4, 1⟩ [⟨id, .eval (.text "a") 0⟩]) :=
    withoutPast ⟨4, 1⟩ { store := bareStore } [⟨id, callOfName⟩, ⟨id, .eval (.text "a") 0⟩]
  exact ⟨congrArg Prod.fst answer_callOfName, hsteps, h, hanswer.1,
    h.afresh (hsteps.trans_le (by decide)) _,
    hspent.refusesEval hanswer.2.ge [] (List.forall_mem_nil _) _ _⟩

end Evaluator

end OutlineLisp
