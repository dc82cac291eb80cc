import OutlineLisp.Proofs.Machine.Requests
import OutlineLisp.Proofs.Value.Inheritance

/-!
# The number of calls in progress

The machine keeps a number of calls in progress beside its stack, on which every such call has left
the body that waits for it. The two are never apart: from the moment at which a request is made, the
number has grown by the bodies on the stack. So no call is left that was not entered, and after the
answer, whatever it is, the number is what it was before.

The values that a call has collected keep their bounds, too. There are never more than it has
operands while it waits, and the first of them can be called, since an operator that cannot be
called is refused at once. It follows that values which are no functions are only ever called from
outside.

## Main definitions

* `Machine.Orderly`: what holds in every state while a request is answered.
* `Machine.InBounds`: what a step can rely on.
* `Evaluator.AnswersInOrder`: both of them at every iteration, and what is left afterwards.

## Main results

* `Machine.Transition.orderly`: a step keeps the order.
* `Machine.Orderly.inBounds`: in an orderly state a step stays in bounds.
* `Evaluator.answersInOrder`: evaluators answer in order, whatever they were asked before.
-/

namespace OutlineLisp

namespace Machine

/-- Whether a call that waits has at most as many values as operands, the first of which can be
called. Its values are listed from the newest to the operator's. -/
def Frame.InOrder : Frame → Prop
  | .operands _ forms _ values =>
    values.length ≤ forms.length ∧ ∀ v ∈ values.getLast?, v.callable = true
  | .branch _ _ _ => True
  | .body => True

/-- What holds in every state while a request is answered that was made with `entry` calls in
progress. -/
structure Orderly (limits : Limits) (entry : ℕ) (s : State) : Prop where
  /-- The calls in progress have grown by the bodies on the stack. -/
  depth_eq : s.depth = entry + s.stack.countP Frame.isBody
  /-- They never exceed the limit. -/
  depth_le : s.depth ≤ limits.calls
  /-- Every call that waits is in order. -/
  frames : ∀ frame ∈ s.stack, frame.InOrder

/-- The same for a step. After the last step there is nothing to say. -/
def Step.Orderly (limits : Limits) (entry : ℕ) : Step → Prop
  | .next s => Machine.Orderly limits entry s
  | .stop _ => True

variable {limits : Limits} {entry depth : ℕ} {stack : List Frame} {w : World} {r : Step}

/-- Other work on top of the stack, with as many bodies and calls, is as orderly. -/
theorem Orderly.push {control control' : Control} {frame : Frame} {w' : World}
    (h : Orderly limits entry ⟨control, stack, depth, w⟩) (hbody : frame.isBody = false)
    (hframe : frame.InOrder) : Orderly limits entry ⟨control', frame :: stack, depth, w'⟩ where
  depth_eq := by rw [List.countP_cons_of_neg (by simp [hbody])]; exact h.depth_eq
  depth_le := h.depth_le
  frames := List.forall_mem_cons.2 ⟨hframe, h.frames⟩

theorem Orderly.pop {control control' : Control} {frame : Frame} {w' : World}
    (h : Orderly limits entry ⟨control, frame :: stack, depth, w⟩) (hbody : frame.isBody = false) :
    Orderly limits entry ⟨control', stack, depth, w'⟩ where
  depth_eq := by
    rw [h.depth_eq, List.countP_cons_of_neg (by simp [hbody])]
  depth_le := h.depth_le
  frames := (List.forall_mem_cons.1 h.frames).2

/-- Entering a body counts one more call. -/
theorem Orderly.enter {control control' : Control} {w' : World}
    (h : Orderly limits entry ⟨control, stack, depth, w⟩) (hlt : depth < limits.calls) :
    Orderly limits entry ⟨control', .body :: stack, depth + 1, w'⟩ where
  depth_eq := by
    have hdepth : depth = entry + stack.countP Frame.isBody := h.depth_eq
    rw [List.countP_cons_of_pos rfl, ← Nat.add_assoc, ← hdepth]
  depth_le := hlt
  frames := List.forall_mem_cons.2 ⟨trivial, h.frames⟩

/-- Leaving a body counts one call less. -/
theorem Orderly.leave {control control' : Control} {w' : World}
    (h : Orderly limits entry ⟨control, .body :: stack, depth, w⟩) :
    Orderly limits entry ⟨control', stack, depth - 1, w'⟩ where
  depth_eq := by
    have hdepth : depth = entry + (Frame.body :: stack).countP Frame.isBody := h.depth_eq
    rw [List.countP_cons_of_pos rfl] at hdepth
    show depth - 1 = entry + stack.countP Frame.isBody
    omega
  depth_le := Nat.le_trans (Nat.sub_le depth 1) h.depth_le
  frames := (List.forall_mem_cons.1 h.frames).2

/-! ### Steps -/

theorem Begins.orderly {scope : ScopeId} {form : Form} {control : Control} {w' : World}
    (hr : Begins scope stack depth w form r)
    (h : Orderly limits entry ⟨control, stack, depth, w'⟩) : r.Orderly limits entry := by
  cases hr with
  | unbound h => trivial
  | cond test consequent alternative => exact h.push rfl trivial
  | call operator operands =>
    exact h.push rfl ⟨Nat.zero_le _, fun v hv => by cases hv⟩
  | _ => exact ⟨h.depth_eq, h.depth_le, h.frames⟩

theorem Calls.orderly {callee : Value} {args : List Value} {control : Control} {w' : World}
    (hr : Calls limits stack depth w callee args r)
    (h : Orderly limits entry ⟨control, stack, depth, w'⟩) : r.Orderly limits entry := by
  cases hr with
  | answered _ => exact ⟨h.depth_eq, h.depth_le, h.frames⟩
  | entered hlt => exact h.enter hlt
  | _ => trivial

/-- The values of a call stay in order when there is one more operand to evaluate. -/
theorem inOrder_operand {operator operand : Form} {operands : List Form} {scope : ScopeId}
    {values : List Value} {v : Value} (hv : values = [] → v.callable = true)
    (hoperand : operands[values.length]? = some operand)
    (h : (Frame.operands operator operands scope values).InOrder) :
    (Frame.operands operator operands scope (v :: values)).InOrder := by
  refine ⟨(List.getElem?_eq_some_iff.1 hoperand).1, ?_⟩
  cases values with
  | nil =>
    intro u hu
    obtain rfl := Option.some.inj hu
    exact hv rfl
  | cons u us =>
    rw [List.getLast?_cons_cons]
    exact h.2

theorem Resumes.orderly {v : Value} {frame : Frame} {w' : World}
    (hr : Resumes limits v stack depth w frame r)
    (h : Orderly limits entry ⟨.give v, frame :: stack, depth, w'⟩) : r.Orderly limits entry := by
  have hframe : frame.InOrder := h.frames frame List.mem_cons_self
  cases hr with
  | consequent _ | alternative _ | missing _ => exact h.pop rfl
  | refused _ => trivial
  | @operand operator operand operands scope values hv hoperand =>
    have hpop : Orderly limits entry ⟨.give v, stack, depth, w'⟩ := h.pop rfl
    exact hpop.push rfl (inOrder_operand hv hoperand hframe)
  | call _ _ _ hcall =>
    have hpop : Orderly limits entry ⟨.give v, stack, depth, w'⟩ := h.pop rfl
    exact hcall.orderly hpop
  | body => exact h.leave

/-- **A step keeps the order.** -/
theorem Transition.orderly {s : State} (hr : Transition limits s r) (h : Orderly limits entry s) :
    r.Orderly limits entry := by
  cases hr with
  | spent _ => trivial
  | begins _ hr => exact hr.orderly h
  | ends v depth w => trivial
  | resumes hr => exact hr.orderly h

/-! ### What a step can rely on -/

/-- What a step can rely on in a state: nothing is taken from where there is nothing. -/
structure InBounds (limits : Limits) (s : State) : Prop where
  /-- At least as many calls are in progress as there are bodies on the stack. -/
  bodies : s.stack.countP Frame.isBody ≤ s.depth
  /-- A call that is left has been entered. -/
  left : ∀ v stack, s.control = .give v → s.stack = .body :: stack → 0 < s.depth
  /-- Once a call has all its operands, the first value that it has collected can be called, and the
  others are its arguments. -/
  called : ∀ v operator operands scope values stack, s.control = .give v →
    s.stack = .operands operator operands scope values :: stack →
    operands.length ≤ values.length → (values = [] → v.callable = true) →
    ∃ callee args, (v :: values).reverse = callee :: args ∧ callee.callable = true ∧
      args.length = operands.length ∧
      step limits s = call limits callee args stack s.depth s.world
  /-- If a step finds that something cannot be called, then this is the operator of a call, which
  has no operand yet. -/
  refused : ∀ shown depth w, step limits s = .stop ⟨.error (.notCallable shown), depth, w⟩ →
    ∃ v operator operands scope stack, s.control = .give v ∧
      s.stack = .operands operator operands scope [] :: stack ∧ v.callable = false ∧
      shown = operator.operatorText

/-- With all operands there, the values that a call has collected are a function and as many
arguments as there are operands. -/
theorem exists_callee {operator : Form} {operands : List Form} {scope : ScopeId}
    {values : List Value} {v : Value} (hv : values = [] → v.callable = true)
    (hlast : operands.length ≤ values.length)
    (h : (Frame.operands operator operands scope values).InOrder) :
    ∃ callee args, (v :: values).reverse = callee :: args ∧ callee.callable = true ∧
      args.length = operands.length := by
  have hlength : values.length = operands.length := Nat.le_antisymm h.1 hlast
  cases hvalues : (v :: values).reverse with
  | nil => simp at hvalues
  | cons callee args =>
    have hlast? : (v :: values).getLast? = some callee := by
      rw [← List.head?_reverse, hvalues, List.head?_cons]
    refine ⟨callee, args, rfl, ?_, ?_⟩
    · cases values with
      | nil =>
        obtain rfl := Option.some.inj hlast?
        exact hv rfl
      | cons u us =>
        rw [List.getLast?_cons_cons] at hlast?
        exact h.2 callee hlast?
    · have hcount := congrArg List.length hvalues
      rw [List.length_reverse, List.length_cons, List.length_cons] at hcount
      omega

theorem step_of_called {v : Value} {operator : Form} {operands : List Form} {scope : ScopeId}
    {values args : List Value} {callee : Value} (hv : values = [] → v.callable = true)
    (hlast : operands.length ≤ values.length) (hvalues : (v :: values).reverse = callee :: args) :
    step limits ⟨.give v, .operands operator operands scope values :: stack, depth, w⟩
      = call limits callee args stack depth w := by
  have hnone : operands[values.length]? = none := List.getElem?_eq_none_iff.2 hlast
  have hready : ¬(values.isEmpty && !v.callable) = true := by
    rw [Bool.and_eq_true, List.isEmpty_iff, Bool.not_eq_true']
    rintro ⟨hnil, hcallable⟩
    rw [hv hnil] at hcallable
    cases hcallable
  rw [step, resume, collect, if_neg hready, hnone]
  simp only [hvalues]

/-- A call finds that something cannot be called only if the callee is no function. -/
theorem Calls.callable_eq_false {callee : Value} {args : List Value} {shown : String} {d : ℕ}
    {w' : World}
    (h : Calls limits stack depth w callee args (.stop ⟨.error (.notCallable shown), d, w'⟩)) :
    callee.callable = false := by
  generalize hr : Step.stop ⟨.error (.notCallable shown), d, w'⟩ = r at h
  cases h with
  | answered _ => cases hr
  | entered _ => cases hr
  | failed h =>
    cases hr
    rcases Primitive.of_result_eq_error h with hfault | hfault <;> cases hfault
  | refused _ => cases hr
  | notCallable h => exact h

theorem Orderly.refused {s : State} (h : Orderly limits entry s) {shown : String} {d : ℕ}
    {w' : World} (hr : Transition limits s (.stop ⟨.error (.notCallable shown), d, w'⟩)) :
    ∃ v operator operands scope stack, s.control = .give v ∧
      s.stack = .operands operator operands scope [] :: stack ∧ v.callable = false ∧
      shown = operator.operatorText := by
  generalize hstop : Step.stop ⟨.error (.notCallable shown), d, w'⟩ = r at hr
  cases hr with
  | spent _ => cases hstop
  | ends v depth w => cases hstop
  | begins _ hr => cases hr <;> cases hstop
  | resumes hr =>
    have hframe := h.frames _ List.mem_cons_self
    cases hr with
    | consequent _ | alternative _ | missing _ | operand _ _ | body => cases hstop
    | refused hv =>
      cases hstop
      exact ⟨_, _, _, _, _, rfl, rfl, hv, rfl⟩
    | call hv hlast hvalues hcall =>
      -- A call whose values are in order calls a function.
      subst hstop
      obtain ⟨callee, args, heq, hcallable, -⟩ := exists_callee hv hlast hframe
      rw [hvalues] at heq
      cases heq
      rw [hcall.callable_eq_false] at hcallable
      cases hcallable

/-- **In an orderly state a step stays in bounds.** -/
theorem Orderly.inBounds {s : State} (h : Orderly limits entry s) : InBounds limits s where
  bodies := by rw [h.depth_eq]; exact Nat.le_add_left _ _
  left v stack _ hstack := by
    rw [h.depth_eq, hstack, List.countP_cons_of_pos rfl]
    exact Nat.succ_pos _
  called v operator operands scope values stack hcontrol hstack hlast hv := by
    obtain ⟨control, stack', depth, w⟩ := s
    obtain rfl : control = .give v := hcontrol
    obtain rfl : stack' = .operands operator operands scope values :: stack := hstack
    obtain ⟨callee, args, hvalues, hcallable, hlength⟩ :=
      exists_callee hv hlast (h.frames _ List.mem_cons_self)
    exact ⟨callee, args, hvalues, hcallable, hlength, step_of_called hv hlast hvalues⟩
  refused shown depth w hstep := h.refused (hstep ▸ transition_step limits s)

end Machine

namespace Evaluator

open Machine

variable {limits : Limits}

/-- What holds while an evaluator answers a request, and afterwards. -/
structure AnswersInOrder (limits : Limits) (e : Evaluator) (r : Request) : Prop where
  /-- At every iteration the state is orderly. -/
  orderly : ∀ n s, (iteration limits)^[n] (r.start limits e) = .next s → Orderly limits e.depth s
  /-- At every iteration the step stays in bounds. -/
  inBounds : ∀ n s, (iteration limits)^[n] (r.start limits e) = .next s → InBounds limits s
  /-- A value that is no function is refused when it is called from outside. -/
  refused : ∀ callee args, r = .apply callee args → callee.callable = false →
    e.answer limits r = (.error (.notCallable callee.display), e)
  /-- Afterwards as many calls are in progress as before, with a value as well as with a fault. -/
  restored : (e.answer limits r).2.depth = e.depth

/-- At first nothing waits. -/
theorem orderly_start {e : Evaluator} (h : e.depth ≤ limits.calls) (r : Request) :
    (r.start limits e).Orderly limits e.depth := by
  have hempty : Orderly limits e.depth ⟨.give .nil, [], e.depth, e.world⟩ :=
    ⟨rfl, h, fun _ hframe => by cases hframe⟩
  cases r with
  | eval form scope => exact ⟨rfl, h, fun _ hframe => by cases hframe⟩
  | apply callee args => exact (calls_call callee args [] e.depth e.world).orderly hempty

theorem answersInOrder_of_le {e : Evaluator} (h : e.depth ≤ limits.calls) (r : Request) :
    e.AnswersInOrder limits r := by
  have horderly : ∀ n s, (iteration limits)^[n] (r.start limits e) = .next s →
      Orderly limits e.depth s := by
    intro n s hs
    have hn : ((iteration limits)^[n] (r.start limits e)).Orderly limits e.depth :=
      iterate_keeps (fun _ _ hs htr => htr.orderly hs) (orderly_start h r) n
    exact (hs ▸ hn : (Step.next s).Orderly limits e.depth)
  refine ⟨horderly, fun n s hs => (horderly n s hs).inBounds, ?_, depth_answer limits e r⟩
  rintro callee args rfl hcallable
  cases callee with
  | closure c => cases hcallable
  | primitive p => cases hcallable
  | _ => rfl

/-- **Evaluators answer in order.** An evaluator is new, with no call in progress, in a world of any
kind. Then it is asked for one thing after another, and between these requests the world may be
changed in any way. While it answers the next request, the calls in progress have grown by the
bodies on the stack and keep to the limit, the values that calls have collected are in order, and
nothing is taken from where there is nothing. Afterwards as many calls are in progress as before. -/
theorem answersInOrder (limits : Limits) (w : World) (turns : List Turn) (turn : Turn) :
    ((serve limits ⟨0, w⟩ turns).prepared turn).AnswersInOrder limits turn.request := by
  have hdepth : ((serve limits ⟨0, w⟩ turns).prepared turn).depth = 0 :=
    depth_serve limits ⟨0, w⟩ turns
  exact answersInOrder_of_le (Nat.le_trans (Nat.le_of_eq hdepth) limits.calls.zero_le) turn.request

end Evaluator

end OutlineLisp
