import OutlineLisp.Proofs.Machine.Requests

/-!
# The lines that a run prints

A run makes one call after another, and what it prints are the arguments of the calls of `print`,
one line for each, in the order of the calls. No other step says anything, and a fault unsays
nothing.

## Main definitions

* `Machine.Call`, `Machine.State.call?`: a call, and the one that a step makes.
* `Machine.calls`, `Request.calls`: the calls of a run, and of a request.
* `Machine.Call.line?`: the line that a call prints.

## Main results

* `Machine.Transition.lines_eq`: what a step says.
* `Evaluator.lines_answer`: what a request says.
-/

namespace OutlineLisp

namespace Machine

/-! ### Calls -/

/-- A call: what is called, and with what arguments. -/
structure Call where
  callee : Value
  args : List Value

/-- The line that a call prints. Only `print` does. -/
def Call.line? : Call → Option String
  | ⟨.primitive .print, args⟩ => some (Primitive.lineOf args)
  | _ => none

/-- The call that is made when a value is returned to work: if that is a call that now has all its
operands, and its operator is not refused. -/
def Frame.call? (v : Value) : Frame → Option Call
  | .operands _ forms _ values =>
    if values.isEmpty && !v.callable || decide (values.length < forms.length) then none
    else some ⟨values.getLast?.getD v, (v :: values).reverse.tail⟩
  | .branch _ _ _ => none
  | .body => none

/-- The call that the next step makes. -/
def State.call? : State → Option Call
  | ⟨.give v, frame :: _, _, _⟩ => frame.call? v
  | _ => none

/-- The calls that a run makes, in order. -/
def calls (limits : Limits) (s : State) : List Call :=
  match _h : step limits s with
  | .next t => s.call?.toList ++ calls limits t
  | .stop _ => s.call?.toList
termination_by (limits, s)
decreasing_by exact ⟨trivial, proceed_of_step ‹_›⟩

/-- The calls that a run makes after a step. -/
def Step.calls (limits : Limits) : Step → List Call
  | .next s => Machine.calls limits s
  | .stop _ => []

theorem calls_eq (limits : Limits) (s : State) :
    calls limits s = s.call?.toList ++ (step limits s).calls limits := by
  rw [calls]
  split
  · next t h => rw [h, Step.calls]
  · next r h => rw [h, Step.calls, List.append_nil]

/-! ### What a step says -/

variable {limits : Limits} {stack : List Frame} {depth : ℕ} {w : World} {r : Step}

theorem line?_primitive (p : Primitive) (args : List Value) :
    Call.line? ⟨.primitive p, args⟩ = p.said? args := by
  cases p <;> rfl

theorem line?_of_not_callable {v : Value} (h : v.callable = false) (args : List Value) :
    Call.line? ⟨v, args⟩ = none := by
  cases v with
  | closure c => cases h
  | primitive p => cases h
  | _ => rfl

/-- A primitive that fails says nothing. -/
theorem said?_of_error {p : Primitive} {fresh : ℕ} {args : List Value} {fault : Fault}
    (h : p.result fresh args = .error fault) : p.said? args = none := by
  cases p with
  | print => cases h
  | _ => rfl

theorem lines_say (w : World) (line : Option String) :
    (w.say line).lines.toList = w.lines.toList ++ line.toList := by
  cases line with
  | none => exact (List.append_nil _).symm
  | some line => exact Array.toList_push

theorem Begins.lines_eq {scope : ScopeId} {form : Form} (hr : Begins scope stack depth w form r) :
    r.world.lines = w.lines := by
  cases hr <;> rfl

theorem Calls.lines_eq {callee : Value} {args : List Value}
    (hr : Calls limits stack depth w callee args r) :
    r.world.lines.toList = w.lines.toList ++ (Call.line? ⟨callee, args⟩).toList := by
  cases hr with
  | @answered p args v _ =>
    rw [line?_primitive, ← lines_say]
    rfl
  | failed h =>
    rw [line?_primitive, said?_of_error h]
    exact (List.append_nil _).symm
  | entered _ => exact (List.append_nil _).symm
  | refused _ => exact (List.append_nil _).symm
  | notCallable h =>
    rw [line?_of_not_callable h]
    exact (List.append_nil _).symm

/-- With all operands there, the call is that of the first value with the others. -/
theorem call?_of_reverse_eq {operator : Form} {operands : List Form} {scope : ScopeId}
    {values args : List Value} {v callee : Value} (hv : values = [] → v.callable = true)
    (hlast : operands.length ≤ values.length) (hvalues : (v :: values).reverse = callee :: args) :
    (Frame.operands operator operands scope values).call? v = some ⟨callee, args⟩ := by
  have hready : ¬(values.isEmpty && !v.callable || decide (values.length < operands.length)) = true
      := by
    rw [Bool.or_eq_true, Bool.and_eq_true, List.isEmpty_iff, Bool.not_eq_true',
      decide_eq_true_eq]
    rintro (⟨hnil, hcallable⟩ | hlt)
    · rw [hv hnil] at hcallable
      cases hcallable
    · exact Nat.not_lt.2 hlast hlt
  have hcallee : (v :: values).getLast? = some callee := by
    rw [← List.head?_reverse, hvalues, List.head?_cons]
  rw [List.getLast?_cons] at hcallee
  rw [Frame.call?, if_neg hready, Option.some.inj hcallee, hvalues, List.tail_cons]

theorem Resumes.lines_eq {v : Value} {frame : Frame}
    (hr : Resumes limits v stack depth w frame r) :
    r.world.lines.toList = w.lines.toList ++ ((frame.call? v).bind Call.line?).toList := by
  cases hr with
  | consequent _ | alternative _ | missing _ | body => exact (List.append_nil _).symm
  | refused h =>
    rw [Frame.call?, h]
    exact (List.append_nil _).symm
  | @operand operator operand operands scope values hv h =>
    have hlt : values.length < operands.length := (List.getElem?_eq_some_iff.1 h).1
    rw [Frame.call?, if_pos (by simp [hlt])]
    exact (List.append_nil _).symm
  | call hv hlast hvalues h =>
    rw [call?_of_reverse_eq hv hlast hvalues]
    exact h.lines_eq

/-- **What a step says:** the line of the call that it makes. -/
theorem Transition.lines_eq {s : State} (hr : Transition limits s r) :
    r.world.lines.toList = s.world.lines.toList ++ (s.call?.bind Call.line?).toList := by
  cases hr with
  | spent _ => exact (List.append_nil _).symm
  | begins _ hr =>
    rw [hr.lines_eq]
    exact (List.append_nil _).symm
  | ends v depth w => exact (List.append_nil _).symm
  | resumes hr => exact hr.lines_eq

/-! ### What a run says -/

theorem filterMap_toList {α β : Type} (f : α → Option β) (o : Option α) :
    o.toList.filterMap f = (o.bind f).toList := by
  cases o with
  | none => rfl
  | some a => cases h : f a <;> simp [h]

/-- **What a run says:** the lines of the calls that it makes, in order. -/
theorem lines_run (limits : Limits) (s : State) :
    (run limits s).world.lines.toList
      = s.world.lines.toList ++ (calls limits s).filterMap Call.line? := by
  induction halts limits s with
  | intro s _ ih =>
    have hstep := (transition_step limits s).lines_eq
    rw [run_eq_finish, calls_eq, List.filterMap_append, filterMap_toList, ← List.append_assoc,
      ← hstep]
    cases h : step limits s with
    | next t => exact ih t (proceed_of_step h)
    | stop r => exact (List.append_nil _).symm

theorem lines_finish (limits : Limits) (r : Step) :
    (r.finish limits).world.lines.toList
      = r.world.lines.toList ++ (r.calls limits).filterMap Call.line? := by
  cases r with
  | next s => exact lines_run limits s
  | stop r => exact (List.append_nil _).symm

end Machine

open Machine

/-- The calls that a request makes, in order. To call a value is the first of them. -/
def Request.calls (limits : Limits) (e : Evaluator) (r : Request) : List Call :=
  match r with
  | .eval _ _ => (r.start limits e).calls limits
  | .apply callee args => ⟨callee, args⟩ :: (r.start limits e).calls limits

/-- **What a request says:** the lines of the calls that it makes, in order. -/
theorem Evaluator.lines_answer (limits : Limits) (e : Evaluator) (r : Request) :
    (e.answer limits r).2.world.lines.toList
      = e.world.lines.toList ++ (r.calls limits e).filterMap Call.line? := by
  rw [answer_eq_finish, lines_finish]
  cases r with
  | eval form scope => rfl
  | apply callee args =>
    have hstart : ((Request.apply callee args).start limits e).world.lines.toList
        = e.world.lines.toList ++ (Call.line? ⟨callee, args⟩).toList :=
      (calls_call callee args [] e.depth e.world).lines_eq
    rw [hstart, List.append_assoc, Request.calls]
    congr 1
    cases h : Call.line? ⟨callee, args⟩ <;> simp [h]

end OutlineLisp
