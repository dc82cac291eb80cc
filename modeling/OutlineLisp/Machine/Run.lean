import OutlineLisp.Machine.Basic

/-!
# Running the machine

The machine always stops, with or without a limit on its steps. A form is finite, and evaluating it
goes on to smaller forms until a closure is called; each call in progress uses up one of the calls
that the limit allows. So evaluating a form at some depth comes to an end by induction first on the
calls still allowed and then on the form, whatever closures and scopes there are.

The limit on steps has no part in this: `Machine.proceed` is the machine without it, and already
that machine stops.

The induction runs over the work that waits on the stack: a stack *receives* at a depth when
returning any value to it, at that depth, leads to the end.

## Main definitions

* `Machine.proceed`: what happens next if there is no limit on steps.
* `Machine.run`: the end that a state leads to.

## Main results

* `Machine.halts`: every state leads to an end, without a limit on steps.
* `Machine.run_eq_finish`: a run follows the steps.
-/

namespace OutlineLisp

namespace Machine

/-! ### The machine without a limit on steps -/

/-- What happens next in a state, however many steps have been taken. -/
def proceed (limits : Limits) : State → Step
  | ⟨.eval form scope, stack, depth, w⟩ => begin form scope stack depth w.tick
  | ⟨.give v, [], depth, w⟩ => .stop ⟨.ok v, depth, w⟩
  | ⟨.give v, frame :: stack, depth, w⟩ => resume limits v frame stack depth w

/-- The limit on steps can only stop the machine. -/
theorem step_eq_proceed_or (limits : Limits) (s : State) :
    step limits s = proceed limits s ∨ ∃ r, step limits s = .stop r := by
  obtain ⟨control, stack, depth, w⟩ := s
  cases control with
  | eval form scope =>
    by_cases h : limits.exceeded w.tick
    · exact .inr ⟨_, by simp only [step, h, if_true]; rfl⟩
    · exact .inl (by simp only [step, proceed, h]; rfl)
  | give v => cases stack <;> exact .inl rfl

theorem proceed_of_step {limits : Limits} {s t : State} (h : step limits s = .next t) :
    proceed limits s = .next t := by
  rcases step_eq_proceed_or limits s with hp | ⟨r, hr⟩
  · rw [← hp, h]
  · rw [h] at hr; cases hr

/-- Whether a state is the next after another, however many steps have been taken. -/
def Follows (limits : Limits) (t s : State) : Prop := proceed limits s = .next t

/-- A state leads to an end if its steps cannot go on for ever. -/
def Halts (limits : Limits) (s : State) : Prop := Acc (Follows limits) s

/-- Returning any value to the stack, at this depth, leads to an end. -/
def Receives (limits : Limits) (stack : List Frame) (depth : Nat) : Prop :=
  ∀ v w, Halts limits ⟨.give v, stack, depth, w⟩

/-- A step leads to an end if the state it leads to does. -/
def Step.Halts (limits : Limits) (r : Step) : Prop :=
  ∀ t, r = .next t → Machine.Halts limits t

variable {limits : Limits}

theorem halts_of_proceed {s : State} (h : (proceed limits s).Halts limits) : Halts limits s :=
  Acc.intro s fun t ht => h t ht

theorem Step.halts_next {s : State} (h : Machine.Halts limits s) : (Step.next s).Halts limits := by
  intro t ht
  cases ht
  exact h

theorem Step.halts_stop (r : Result) : (Step.stop r).Halts limits := by
  intro t ht
  cases ht

theorem halts_fail (fault : Fault) (depth : Nat) (w : World) :
    (fail fault depth w).Halts limits := Step.halts_stop _

/-! ### Calls -/

theorem halts_call {stack : List Frame} {depth : Nat} (hs : Receives limits stack depth)
    (hb : depth < limits.calls → ∀ body scope w,
      Halts limits ⟨.eval body scope, .body :: stack, depth + 1, w⟩)
    (callee : Value) (args : List Value) (w : World) :
    (call limits callee args stack depth w).Halts limits := by
  cases callee with
  | primitive p =>
    simp only [call]
    split
    · exact Step.halts_next (hs _ _)
    · exact halts_fail _ _ _
  | closure c =>
    simp only [call]
    split
    · exact halts_fail _ _ _
    · exact Step.halts_next (hb (by omega) _ _ _)
  | _ => exact halts_fail _ _ _

theorem receives_body {stack : List Frame} {depth : Nat} (hs : Receives limits stack depth) :
    Receives limits (.body :: stack) (depth + 1) := fun v w =>
  halts_of_proceed (Step.halts_next (hs v w))

theorem receives_branch {consequent : Form} {alternative : Option Form} {scope : ScopeId}
    {stack : List Frame} {depth : Nat} (hs : Receives limits stack depth)
    (hc : ∀ w, Halts limits ⟨.eval consequent scope, stack, depth, w⟩)
    (ha : ∀ form, alternative = some form → ∀ w, Halts limits ⟨.eval form scope, stack, depth, w⟩) :
    Receives limits (.branch consequent alternative scope :: stack) depth := by
  intro v w
  apply halts_of_proceed
  simp only [proceed, resume]
  split
  · exact Step.halts_next (hc w)
  · split
    · exact Step.halts_next (ha _ rfl w)
    · exact Step.halts_next (hs _ _)

/-- A call that waits comes to an end if its operands do and its operator can be called. -/
theorem receives_operands {operator : Form} {operands : List Form} {scope : ScopeId}
    {stack : List Frame} {depth : Nat} (hs : Receives limits stack depth)
    (hb : depth < limits.calls → ∀ body scope w,
      Halts limits ⟨.eval body scope, .body :: stack, depth + 1, w⟩)
    (ho : ∀ operand ∈ operands, ∀ frames, Receives limits frames depth →
      ∀ w, Halts limits ⟨.eval operand scope, frames, depth, w⟩) (values : List Value) :
    Receives limits (.operands operator operands scope values :: stack) depth := by
  intro v w
  apply halts_of_proceed
  simp only [proceed, resume, collect]
  split
  · exact halts_fail _ _ _
  · split
    · next operand hop =>
      have hlt : values.length < operands.length := (List.getElem?_eq_some_iff.1 hop).1
      exact Step.halts_next (ho operand (List.mem_of_getElem? hop) _
        (receives_operands hs hb ho (v :: values)) w)
    · split
      · exact halts_call hs hb _ _ _
      · exact halts_fail _ _ _
termination_by operands.length - values.length
decreasing_by
  simp only [List.length_cons]
  omega

/-! ### Forms -/

/-- Evaluating a form leads to an end if the work that waits for its value does. -/
theorem halts_eval (form : Form) (scope : ScopeId) (stack : List Frame) (depth : Nat) (w : World)
    (hs : Receives limits stack depth) : Halts limits ⟨.eval form scope, stack, depth, w⟩ := by
  apply halts_of_proceed
  cases form with
  | nil => exact Step.halts_next (hs _ _)
  | number x => exact Step.halts_next (hs _ _)
  | text s => exact Step.halts_next (hs _ _)
  | lambda params body => exact Step.halts_next (hs _ _)
  | symbol name =>
    simp only [proceed, begin]
    split
    · exact Step.halts_next (hs _ _)
    · exact halts_fail _ _ _
  | cond test consequent alternative =>
    have ht : sizeOf test < sizeOf (Form.cond test consequent alternative) := by simp; omega
    have hc : sizeOf consequent < sizeOf (Form.cond test consequent alternative) := by simp; omega
    have ha (form : Form) (h : alternative = some form) :
        sizeOf form < sizeOf (Form.cond test consequent alternative) := by simp [h]; omega
    exact Step.halts_next (halts_eval test scope _ depth _ (receives_branch hs
      (fun w => halts_eval consequent scope stack depth w hs)
      (fun form h w => have := ha form h; halts_eval form scope stack depth w hs)))
  | call operator operands =>
    have hf : sizeOf operator < sizeOf (Form.call operator operands) := by simp; omega
    have ho (operand : Form) (h : operand ∈ operands) :
        sizeOf operand < sizeOf (Form.call operator operands) := by
      have := List.sizeOf_lt_of_mem h
      simp
      omega
    exact Step.halts_next (halts_eval operator scope _ depth _ (receives_operands hs
      (fun _ body scope w => halts_eval body scope _ (depth + 1) w (receives_body hs))
      (fun operand h frames hf w =>
        have := ho operand h; halts_eval operand scope frames depth w hf) []))
termination_by (limits.calls - depth, sizeOf form)
decreasing_by all_goals simp only [Prod.lex_def, true_and]; omega

theorem receives (stack : List Frame) (depth : Nat) : Receives limits stack depth := by
  induction stack generalizing depth with
  | nil => exact fun v w => halts_of_proceed (Step.halts_stop _)
  | cons frame stack ih =>
    cases frame with
    | body => exact fun v w => halts_of_proceed (Step.halts_next (ih _ v w))
    | branch consequent alternative scope =>
      exact receives_branch (ih depth) (fun w => halts_eval _ _ _ _ w (ih depth))
        (fun form _ w => halts_eval form _ _ _ w (ih depth))
    | operands operator operands scope values =>
      exact receives_operands (ih depth)
        (fun _ body scope w => halts_eval body scope _ _ w (receives_body (ih depth)))
        (fun operand _ frames hf w => halts_eval operand _ _ _ w hf) values

/-- **The machine always stops:** every state leads to an end. -/
theorem halts (limits : Limits) (s : State) : Halts limits s := by
  obtain ⟨control, stack, depth, w⟩ := s
  cases control with
  | give v => exact receives stack depth v w
  | eval form scope => exact halts_eval form scope stack depth w (receives stack depth)

/-! ### Runs -/

/-- States ordered by the steps between them. -/
instance : WellFoundedRelation (Limits × State) where
  rel t s := t.1 = s.1 ∧ Follows s.1 t.2 s.2
  wf := by
    refine ⟨fun ⟨limits, s⟩ => ?_⟩
    induction halts limits s with
    | intro s _ ih =>
      refine Acc.intro _ ?_
      rintro ⟨l, t⟩ ⟨rfl, ht⟩
      exact ih t ht

/-- The end that a state leads to. -/
def run (limits : Limits) (s : State) : Result :=
  match _h : step limits s with
  | .next t => run limits t
  | .stop r => r
termination_by (limits, s)
decreasing_by exact ⟨trivial, proceed_of_step ‹_›⟩

/-- The end that a step leads to. -/
def Step.finish (limits : Limits) : Step → Result
  | .next t => run limits t
  | .stop r => r

@[simp] theorem Step.finish_next (limits : Limits) (t : State) :
    (Step.next t).finish limits = run limits t := rfl

@[simp] theorem Step.finish_stop (limits : Limits) (r : Result) :
    (Step.stop r).finish limits = r := rfl

/-- A run follows the steps. -/
theorem run_eq_finish (limits : Limits) (s : State) :
    run limits s = (step limits s).finish limits := by
  rw [run]
  split
  · next h => rw [h]; rfl
  · next h => rw [h]; rfl

end Machine

end OutlineLisp
