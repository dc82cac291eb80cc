import OutlineLisp.Machine.Evaluator
import OutlineLisp.Machine.Recursive

/-!
# The machine computes what recursion says

Running the machine on a form, on top of any stack, does what evaluation by recursion does and then
returns the value to that stack; a fault found by recursion is the fault that the machine stops
with, in the same world. So the stack is only a way to remember what recursion would do next.

Faults are where the two differ in shape. The machine stops at once, as deep as it is, and recursion
hands the fault through every call in progress. `Result.attempt` therefore forgets the depth of a
result, and `drive` restores it.

## Main definitions

* `Machine.Result.attempt`: what is left of a result without its depth.
* `Machine.returned`: what a stack makes of a value.
* `Machine.Agrees`: the machine evaluates one form as recursion does.

## Main results

* `Machine.agrees`: the machine evaluates every form as recursion does.
* `Machine.attempt_finish_call`: a run that begins with a call, on any stack.
* `Machine.attempt_run_eval`, `Machine.attempt_finish_call_nil`: whole runs.
* `Evaluator.eval_eq_evaluate`: an evaluator evaluates a form as recursion does.
-/

namespace OutlineLisp

namespace Attempt

variable {α β γ : Type}

theorem andThen_assoc (a : Attempt α) (f : α → World → Attempt β) (g : β → World → Attempt γ) :
    (a.andThen f).andThen g = a.andThen fun v w => (f v w).andThen g := by
  obtain ⟨r, w⟩ := a
  cases r <;> rfl

@[simp] theorem andThen_self (a : Attempt α) : (a.andThen fun v w => (.ok v, w)) = a := by
  obtain ⟨r, w⟩ := a
  cases r <;> rfl

end Attempt

namespace Machine

/-- The outcome of a result and the world after it. -/
def Result.attempt (r : Result) : Attempt Value := (r.outcome, r.world)

@[simp] theorem attempt_finish_fail (limits : Limits) (fault : Fault) (depth : Nat) (w : World) :
    ((fail fault depth w).finish limits).attempt = (.error fault, w) := rfl

/-- What a stack makes of a value that is returned to it. -/
def returned (limits : Limits) (stack : List Frame) (depth : Nat) (v : Value) (w : World) :
    Attempt Value :=
  (run limits ⟨.give v, stack, depth, w⟩).attempt

/-- The machine evaluates a form as recursion does, whatever waits for the value. -/
def Agrees (limits : Limits) (depth : Nat) (form : Form) (scope : ScopeId) : Prop :=
  ∀ stack w, (run limits ⟨.eval form scope, stack, depth, w⟩).attempt
    = (form.evaluate limits depth scope w).andThen (returned limits stack depth)

variable {limits : Limits}

/-! ### What the frames make of a value -/

theorem returned_nil (depth : Nat) : returned limits [] depth = fun v w => (.ok v, w) := by
  funext v w
  rw [returned, run_eq_finish]
  rfl

theorem returned_cons (frame : Frame) (stack : List Frame) (depth : Nat) (v : Value) (w : World) :
    returned limits (frame :: stack) depth v w
      = ((resume limits v frame stack depth w).finish limits).attempt := by
  rw [returned, run_eq_finish]
  rfl

/-- The value of a closure's body leaves the call. -/
theorem returned_body (stack : List Frame) (depth : Nat) :
    returned limits (.body :: stack) (depth + 1) = returned limits stack depth := by
  funext v w
  rw [returned_cons]
  rfl

/-- The value of a test chooses one branch. -/
theorem returned_branch {consequent : Form} {alternative : Option Form} {scope : ScopeId}
    {depth : Nat} (hc : Agrees limits depth consequent scope)
    (ha : ∀ form, alternative = some form → Agrees limits depth form scope)
    (stack : List Frame) (v : Value) (w : World) :
    returned limits (.branch consequent alternative scope :: stack) depth v w
      = (if v.truthy then consequent.evaluate limits depth scope w
          else match alternative with
            | some form => form.evaluate limits depth scope w
            | none => (.ok .nil, w)).andThen (returned limits stack depth) := by
  rw [returned_cons]
  simp only [resume]
  split
  · exact hc stack w
  · cases alternative with
    | none => rfl
    | some form => exact ha form rfl stack w

/-! ### Calls -/

/-- A run that begins with a call returns to the stack what the call comes to, if the bodies of
closures, one call deeper, are evaluated as recursion says. -/
theorem attempt_finish_call_of_body {depth : Nat}
    (hb : depth < limits.calls → ∀ body scope, Agrees limits (depth + 1) body scope)
    (stack : List Frame) (callee : Value) (args : List Value) (w : World) :
    ((call limits callee args stack depth w).finish limits).attempt
      = (callee.invoke limits depth args w fun _ body scope w =>
          body.evaluate limits (depth + 1) scope w).andThen (returned limits stack depth) := by
  cases callee with
  | primitive p =>
    simp only [call, Value.invoke]
    cases p.result w.fresh args <;> rfl
  | closure c =>
    simp only [call, Value.invoke]
    by_cases h : depth < limits.calls
    · rw [if_neg (by omega), dif_pos h, Step.finish_next, hb h, returned_body]
    · rw [if_pos (by omega), dif_neg h]
      rfl
  | _ => rfl

/-- A call that waits and has its operator goes on to the next operand, or is made. -/
theorem collect_of_callable {operator : Form} {operands : List Form} {scope : ScopeId}
    {values args : List Value} {callee v : Value} (hc : callee.callable = true)
    (hv : (v :: values).reverse = callee :: args) (stack : List Frame) (depth : Nat) (w : World) :
    collect limits operator operands scope values v stack depth w
      = match operands[args.length]? with
        | some operand =>
          .next ⟨.eval operand scope, .operands operator operands scope (v :: values) :: stack,
            depth, w⟩
        | none => call limits callee args stack depth w := by
  have hlen : values.length = args.length := by simpa using congrArg List.length hv
  have hcall : ¬(values.isEmpty && !v.callable) = true := by
    cases values with
    | nil =>
      obtain ⟨rfl, -⟩ := List.cons.inj hv
      simp [hc]
    | cons => simp
  cases hop : operands[args.length]? <;> simp only [collect, if_neg hcall, hlen, hv, hop]

/-- A value returned to a call that waits: the operands that are missing are evaluated from left to
right, and then the operator is called.

The induction is on the operands that are missing. The values that are there, of which `v` is the
newest, stay apart into the operator's and the operands' before. -/
theorem returned_operands {operator : Form} {operands : List Form} {scope : ScopeId} {depth : Nat}
    (hb : depth < limits.calls → ∀ body scope, Agrees limits (depth + 1) body scope)
    (ho : ∀ operand ∈ operands, Agrees limits depth operand scope) (stack : List Frame)
    {callee : Value} (hc : callee.callable = true) (missing : List Form) (args : List Value)
    (hm : operands.drop args.length = missing) (v : Value) (values : List Value) (w : World)
    (hv : (v :: values).reverse = callee :: args) :
    returned limits (.operands operator operands scope values :: stack) depth v w
      = (Form.evaluateAll limits depth missing scope w).andThen fun rest w =>
        (callee.invoke limits depth (args ++ rest) w fun _ body scope w =>
          body.evaluate limits (depth + 1) scope w).andThen (returned limits stack depth) := by
  rw [returned_cons, resume, collect_of_callable hc hv]
  induction missing generalizing args v values w with
  | nil =>
    have hnone : operands[args.length]? = none :=
      List.getElem?_eq_none (List.drop_eq_nil_iff.1 hm)
    rw [hnone, attempt_finish_call_of_body hb, Form.evaluateAll, Attempt.andThen_ok,
      List.append_nil]
  | cons operand missing ih =>
    have hsome : operands[args.length]? = some operand := by
      rw [← List.head?_drop, hm, List.head?_cons]
    have hm' (u : Value) : operands.drop (args ++ [u]).length = missing := by
      rw [List.length_append, List.length_singleton, ← List.drop_drop, hm, List.drop_one,
        List.tail_cons]
    have hv' (u : Value) : (u :: v :: values).reverse = callee :: (args ++ [u]) := by
      rw [List.reverse_cons, hv, List.cons_append]
    rw [hsome, Step.finish_next, ho operand (List.mem_of_getElem? hsome), Form.evaluateAll,
      Attempt.andThen_assoc]
    congr 1
    funext u w
    rw [returned_cons, resume, collect_of_callable hc (hv' u), ih _ (hm' u) _ _ w (hv' u),
      Attempt.andThen_assoc]
    congr 1
    funext rest w
    rw [Attempt.andThen_ok, List.append_assoc, List.singleton_append]

/-- A value returned to a call as its operator. What is no function is reported by the form of the
operator, before any operand is evaluated. -/
theorem returned_operator {operator : Form} {operands : List Form} {scope : ScopeId} {depth : Nat}
    (hb : depth < limits.calls → ∀ body scope, Agrees limits (depth + 1) body scope)
    (ho : ∀ operand ∈ operands, Agrees limits depth operand scope) (stack : List Frame)
    (callee : Value) (w : World) :
    returned limits (.operands operator operands scope [] :: stack) depth callee w
      = (if callee.callable then
          (Form.evaluateAll limits depth operands scope w).andThen fun args w =>
            callee.invoke limits depth args w fun _ body scope w =>
              body.evaluate limits (depth + 1) scope w
        else (.error (.notCallable operator.operatorText), w)).andThen
          (returned limits stack depth) := by
  by_cases hc : callee.callable = true
  · rw [returned_operands hb ho stack hc operands [] rfl callee [] w rfl, if_pos hc,
      Attempt.andThen_assoc]
    rfl
  · rw [returned_cons, resume, collect, if_neg hc, if_pos (by simp [hc]), attempt_finish_fail,
      Attempt.andThen_error]

/-! ### Forms -/

/-- **The machine agrees with recursion** on every form, at every depth. The induction is that of
the recursion: first on the calls that are still allowed, then on the form. -/
theorem agrees (limits : Limits) (depth : Nat) (form : Form) (scope : ScopeId) :
    Agrees limits depth form scope := by
  intro stack w
  rw [run_eq_finish, step, Form.evaluate.eq_def]
  split
  · rfl
  · cases form with
    | nil => rfl
    | number x => rfl
    | text s => rfl
    | lambda params body => rfl
    | symbol name =>
      simp only [begin]
      cases w.tick.store.lookup scope name <;> rfl
    | cond test consequent alternative =>
      have ht : Agrees limits depth test scope := agrees limits depth test scope
      have hc : Agrees limits depth consequent scope := agrees limits depth consequent scope
      have ha (form : Form) (h : alternative = some form) : Agrees limits depth form scope :=
        agrees limits depth form scope
      rw [begin, Step.finish_next, ht]
      cases alternative <;>
      · rw [Attempt.andThen_assoc]
        congr 1
        funext v w
        exact returned_branch hc ha stack v w
    | call operator operands =>
      have hf : Agrees limits depth operator scope := agrees limits depth operator scope
      have hb (h : depth < limits.calls) (body : Form) (scope : ScopeId) :
          Agrees limits (depth + 1) body scope := agrees limits (depth + 1) body scope
      have ho (operand : Form) (h : operand ∈ operands) : Agrees limits depth operand scope :=
        agrees limits depth operand scope
      rw [begin, Step.finish_next, hf, Attempt.andThen_assoc]
      congr 1
      funext callee w
      exact returned_operator hb ho stack callee w
termination_by (limits.calls - depth, sizeOf form)
decreasing_by
  all_goals simp only [Prod.lex_def, Form.cond.sizeOf_spec, Form.call.sizeOf_spec, true_and]
  · omega
  · omega
  · rw [h, Option.some.sizeOf_spec]
    omega
  · omega
  · omega
  · have := List.sizeOf_lt_of_mem h
    omega

/-- A run that begins with a call returns to the stack what the call comes to. -/
theorem attempt_finish_call (limits : Limits) (stack : List Frame) (depth : Nat) (callee : Value)
    (args : List Value) (w : World) :
    ((call limits callee args stack depth w).finish limits).attempt
      = (callee.invoke limits depth args w fun _ body scope w =>
          body.evaluate limits (depth + 1) scope w).andThen (returned limits stack depth) :=
  attempt_finish_call_of_body (fun _ body scope => agrees limits (depth + 1) body scope) stack
    callee args w

/-! ### Whole runs -/

theorem attempt_run_eval (limits : Limits) (depth : Nat) (form : Form) (scope : ScopeId)
    (w : World) :
    (run limits ⟨.eval form scope, [], depth, w⟩).attempt = form.evaluate limits depth scope w := by
  rw [agrees, returned_nil, Attempt.andThen_self]

theorem attempt_finish_call_nil (limits : Limits) (depth : Nat) (callee : Value)
    (args : List Value) (w : World) :
    ((call limits callee args [] depth w).finish limits).attempt
      = callee.invoke limits depth args w fun _ body scope w =>
          body.evaluate limits (depth + 1) scope w := by
  rw [attempt_finish_call, returned_nil, Attempt.andThen_self]

end Machine

namespace Evaluator

open Machine

/-- **An evaluator evaluates a form as recursion does:** to the same value or the same fault, with
the same steps taken, lines said, identities drawn and scopes made. No call that it began is in
progress afterwards. -/
theorem eval_eq_evaluate (limits : Limits) (e : Evaluator) (form : Form) (scope : ScopeId) :
    e.eval limits form scope
      = ((form.evaluate limits e.depth scope e.world).1,
        ⟨e.depth, (form.evaluate limits e.depth scope e.world).2⟩) := by
  rw [← attempt_run_eval]
  rfl

end Evaluator

end OutlineLisp
