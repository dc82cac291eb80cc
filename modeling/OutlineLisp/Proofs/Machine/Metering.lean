import OutlineLisp.Proofs.Machine.Limits
import OutlineLisp.Proofs.Machine.Requests
import OutlineLisp.Proofs.Value.Inheritance

/-!
# Counting on

A run counts its steps on top of those that have been taken, and appends its lines to those that
have been said. Neither is looked at otherwise, except that steps are compared with their limit. So
a run after some steps goes as it would go from the start under a limit that is lower by as many
steps. Only the fault that says that the limit on steps was passed shows a different number.

A run also goes the same way under any limit on steps that is not below what the run has taken in
the end.

## Main definitions

* `World.after`, `Machine.State.after`, `Machine.Result.after`: the same after some steps and lines.
* `World.spend`, `Machine.Result.spend`: the same after some more steps.
* `Limits.extend`: limits that allow some more steps.
* `Fault.withLimit`: a fault that shows another limit on steps.
* `Machine.Step.Spends`: a step stops with the limit on steps only if that was passed.

## Main results

* `Machine.step_after`, `Machine.run_after`: a run after some steps and lines.
* `Machine.run_eq_of_steps_le`: a run under another limit on steps.
* `Machine.spends_finish`: the limit on steps is the fault only if it was passed.
* `Machine.finish_call_spend`: a call after some more steps.
* `Evaluator.precedes_answer`: a request takes no step back.
-/

namespace OutlineLisp

/-- A world that goes on counting after some steps, and speaking after some lines. -/
def World.after (g : ℕ) (said : Array String) (w : World) : World :=
  { w with steps := g + w.steps, lines := said ++ w.lines }

/-- A world in which some more steps have been taken. -/
def World.spend (n : ℕ) (w : World) : World := { w with steps := w.steps + n }

/-- Limits that allow some more steps. -/
def Limits.extend (g : ℕ) (limits : Limits) : Limits := { limits with steps := g + limits.steps }

/-- A fault that shows another limit on steps, if it shows one. -/
def Fault.withLimit (n : ℕ) : Fault → Fault
  | .exhausted (.steps _) => .exhausted (.steps n)
  | fault => fault

variable {g : ℕ} {said : Array String} {limits : Limits}

namespace World

@[simp] theorem store_after (w : World) : (w.after g said).store = w.store := rfl

@[simp] theorem fresh_after (w : World) : (w.after g said).fresh = w.fresh := rfl

theorem tick_after (w : World) : (w.after g said).tick = w.tick.after g said := rfl

theorem draw_after (w : World) : (w.after g said).draw = w.draw.after g said := rfl

theorem spend_eq_after (n : ℕ) (w : World) : w.spend n = w.after n #[] := by
  rw [spend, after, Array.empty_append, Nat.add_comm]

theorem spend_one (w : World) : w.spend 1 = w.tick := rfl

theorem spend_spend (m n : ℕ) (w : World) : (w.spend m).spend n = w.spend (m + n) := by
  rw [spend, spend, spend, Nat.add_assoc]

theorem say_after (w : World) (line : Option String) :
    (w.after g said).say line = (w.say line).after g said := by
  cases line with
  | none => rfl
  | some line =>
    show { w.after g said with lines := (said ++ w.lines).push line } = _
    rw [← Array.append_push]
    rfl

theorem exceeded_after (limits : Limits) (w : World) :
    (limits.extend g).exceeded (w.after g said) = limits.exceeded w := by
  exact decide_eq_decide.2 (Nat.add_lt_add_iff_left)

end World

/-- An outcome that does not show the limit on steps. -/
theorem Fault.mapError_withLimit {outcome : Except Fault Value}
    (h : ∀ m, outcome ≠ .error (.exhausted (.steps m))) (n : ℕ) :
    outcome.mapError (withLimit n) = outcome := by
  cases outcome with
  | ok v => rfl
  | error fault =>
    refine congrArg Except.error ?_
    rw [withLimit.eq_def]
    split
    · exact absurd rfl (h _)
    · rfl

/-- The faults of primitives show no limit. -/
theorem Primitive.withLimit_of_result {p : Primitive} {fresh : ℕ} {args : List Value}
    {fault : Fault} (h : p.result fresh args = .error fault) (n : ℕ) :
    fault.withLimit n = fault := by
  rcases of_result_eq_error h with rfl | rfl <;> rfl

namespace Machine

/-- A state after some steps and lines. -/
def State.after (g : ℕ) (said : Array String) (s : State) : State :=
  { s with world := s.world.after g said }

/-- A result after some steps and lines. The limit on steps that its fault may show is given. -/
def Result.after (n g : ℕ) (said : Array String) (r : Result) : Result :=
  { r with outcome := r.outcome.mapError (Fault.withLimit n), world := r.world.after g said }

/-- A step after some steps and lines. -/
def Step.after (n g : ℕ) (said : Array String) : Step → Step
  | .next s => .next (s.after g said)
  | .stop r => .stop (r.after n g said)

/-! ### Steps -/

theorem fail_after {n : ℕ} {fault : Fault} (h : fault.withLimit n = fault) (depth : ℕ) (w : World) :
    fail fault depth (w.after g said) = (fail fault depth w).after n g said := by
  rw [fail, fail, Step.after, Result.after]
  exact congrArg (fun f => Step.stop ⟨.error f, depth, w.after g said⟩) h.symm

theorem begin_after (n : ℕ) (form : Form) (scope : ScopeId) (stack : List Frame) (depth : ℕ)
    (w : World) :
    begin form scope stack depth (w.after g said)
      = (begin form scope stack depth w).after n g said := by
  cases form with
  | symbol name =>
    simp only [begin, Store.lookup, World.store_after]
    cases w.store.lookup? scope name with
    | some v => rfl
    | none => rfl
  | _ => rfl

theorem call_after (n : ℕ) (callee : Value) (args : List Value) (stack : List Frame) (depth : ℕ)
    (w : World) :
    call (limits.extend g) callee args stack depth (w.after g said)
      = (call limits callee args stack depth w).after n g said := by
  cases callee with
  | primitive p =>
    simp only [call, World.fresh_after, World.say_after, World.draw_after]
    cases h : p.result w.fresh args with
    | ok v => rfl
    | error fault => exact fail_after (Primitive.withLimit_of_result h n) depth w
  | closure c =>
    show (if limits.calls ≤ depth then _ else _) = _
    rw [call]
    split <;> rfl
  | _ => rfl

theorem resume_after (n : ℕ) (v : Value) (frame : Frame) (stack : List Frame) (depth : ℕ)
    (w : World) :
    resume (limits.extend g) v frame stack depth (w.after g said)
      = (resume limits v frame stack depth w).after n g said := by
  cases frame with
  | branch consequent alternative scope =>
    simp only [resume]
    split
    · rfl
    · cases alternative <;> rfl
  | operands operator operands scope values =>
    simp only [resume, collect]
    split
    · rfl
    · split
      · rfl
      · split
        · exact call_after n _ _ _ _ _
        · rfl
  | body => rfl

/-- **A step after some steps and lines,** under a limit that allows as many steps more. -/
theorem step_after (s : State) :
    step (limits.extend g) (s.after g said)
      = (step limits s).after (limits.extend g).steps g said := by
  obtain ⟨control, stack, depth, w⟩ := s
  cases control with
  | eval form scope =>
    show (if (limits.extend g).exceeded (w.after g said).tick then _ else _) = _
    rw [World.tick_after, World.exceeded_after, step]
    simp only
    split
    · rfl
    · exact begin_after _ form scope stack depth w.tick
  | give v =>
    cases stack with
    | nil => rfl
    | cons frame stack => exact resume_after _ v frame stack depth w

/-! ### Runs -/

/-- **A run after some steps and lines** goes as it would from the start. -/
theorem run_after (s : State) :
    run (limits.extend g) (s.after g said)
      = (run limits s).after (limits.extend g).steps g said := by
  induction halts limits s with
  | intro s _ ih =>
    rw [run_eq_finish, run_eq_finish limits, step_after]
    cases h : step limits s with
    | next t => exact ih t (proceed_of_step h)
    | stop r => rfl

theorem finish_after (r : Step) :
    (r.after (limits.extend g).steps g said).finish (limits.extend g)
      = (r.finish limits).after (limits.extend g).steps g said := by
  cases r with
  | next s => exact run_after s
  | stop r => rfl

/-! ### Under another limit on steps -/

/-- A step goes the same way under two limits on steps that are not below what has been taken after
it. -/
theorem step_eq_of_steps_le {n : ℕ} {s : State} (h : (step limits s).world.steps ≤ limits.steps)
    (hn : (step limits s).world.steps ≤ n) : step { limits with steps := n } s = step limits s := by
  obtain ⟨control, stack, depth, w⟩ := s
  cases control with
  | eval form scope =>
    -- Neither limit is passed by the step with which the form begins.
    have htick : w.tick.steps ≤ (step limits ⟨.eval form scope, stack, depth, w⟩).world.steps := by
      simp only [step]
      split
      · exact Nat.le_refl _
      · exact (begins_begin form scope stack depth w.tick).precedes.steps
    have hbegin (l : Limits) (hl : w.tick.steps ≤ l.steps) :
        step l ⟨.eval form scope, stack, depth, w⟩ = begin form scope stack depth w.tick :=
      step_eq_begin (Nat.lt_of_succ_le hl)
    rw [hbegin limits (htick.trans h), hbegin { limits with steps := n } (htick.trans hn)]
  | give v => cases stack <;> rfl

/-- **A run under another limit on steps** that is not below what the run has taken in the end. -/
theorem run_eq_of_steps_le {n : ℕ} {s : State} (h : (run limits s).world.steps ≤ limits.steps)
    (hn : (run limits s).world.steps ≤ n) : run { limits with steps := n } s = run limits s := by
  induction halts limits s with
  | intro s _ ih =>
    rw [run_eq_finish] at h hn
    have hfirst := (precedes_finish limits (step limits s)).steps
    rw [run_eq_finish, run_eq_finish limits, step_eq_of_steps_le (hfirst.trans h) (hfirst.trans hn)]
    cases hs : step limits s with
    | next t =>
      rw [hs] at h hn
      exact ih t (proceed_of_step hs) h hn
    | stop r => rfl

/-- The same for a run that begins with a step. -/
theorem finish_eq_of_steps_le {n : ℕ} {r : Step} (h : (r.finish limits).world.steps ≤ limits.steps)
    (hn : (r.finish limits).world.steps ≤ n) :
    r.finish { limits with steps := n } = r.finish limits := by
  cases r with
  | next s => exact run_eq_of_steps_le h hn
  | stop r => rfl

/-- Whether a step stops with the limit on steps only if that was passed. -/
def Step.Spends (limits : Limits) : Step → Prop
  | .next _ => True
  | .stop r => ∀ m, r.outcome = .error (.exhausted (.steps m)) → limits.steps < r.world.steps

variable {stack : List Frame} {depth : ℕ} {w : World} {r : Step}

theorem Begins.spends {scope : ScopeId} {form : Form} (hr : Begins scope stack depth w form r) :
    r.Spends limits := by
  cases hr with
  | unbound h => rintro m ⟨⟩
  | _ => trivial

theorem Calls.spends {callee : Value} {args : List Value}
    (hr : Calls limits stack depth w callee args r) : r.Spends limits := by
  cases hr with
  | answered h => trivial
  | entered h => trivial
  | refused h => rintro m ⟨⟩
  | notCallable h => rintro m ⟨⟩
  | failed h =>
    intro m hm
    obtain rfl := Except.error.inj hm
    rcases Primitive.of_result_eq_error h with hfault | hfault <;> cases hfault

theorem Transition.spends {s : State} (hr : Transition limits s r) : r.Spends limits := by
  cases hr with
  | spent h => exact fun _ _ => Nat.lt_succ_of_le h
  | begins h hr => exact hr.spends
  | ends v depth w => rintro m ⟨⟩
  | resumes hr =>
    cases hr with
    | refused h => rintro m ⟨⟩
    | call hv hlast hvalues h => exact h.spends
    | _ => trivial

/-- **The limit on steps is the fault** only if it was passed. -/
theorem spends_finish (limits : Limits) (h : r.Spends limits) :
    (Step.stop (r.finish limits)).Spends limits := by
  cases r with
  | next s =>
    exact run_induction (P := fun _ => True) (Q := fun r => (Step.stop r).Spends limits)
      (fun _ _ _ _ => trivial) (fun _ _ _ htr => htr.spends) trivial
  | stop r => exact h

/-- A result after some more steps. -/
def Result.spend (n : ℕ) (r : Result) : Result := { r with world := r.world.spend n }

/-- After some steps, but with no limit passed, no fault shows how many there may be. -/
theorem after_eq_spend {r : Result} (h : (Step.stop r).Spends limits)
    (hsteps : r.world.steps ≤ limits.steps) (m n : ℕ) : r.after m n #[] = r.spend n := by
  have houtcome : ∀ m, r.outcome ≠ .error (.exhausted (.steps m)) := fun m hm =>
    Nat.not_lt.2 hsteps (h m hm)
  rw [Result.after, Result.spend, Fault.mapError_withLimit houtcome, World.spend_eq_after]

/-- **A call after some more steps** goes the same way if the limit allows them, too. -/
theorem finish_call_spend {n : ℕ} {callee : Value} {args : List Value}
    (h : ((call limits callee args stack depth w).finish limits).world.steps + n ≤ limits.steps) :
    (call limits callee args stack depth (w.spend n)).finish limits
      = ((call limits callee args stack depth w).finish limits).spend n := by
  have hspends := spends_finish limits (calls_call callee args stack depth w).spends
  -- The limit that is left when the steps have been taken.
  let lower : Limits := { limits with steps := limits.steps - n }
  have hextend : lower.extend n = limits := by
    rw [Limits.extend, Nat.add_sub_cancel' ((Nat.le_add_left _ _).trans h)]
  have hlower : (call lower callee args stack depth w).finish lower
      = (call limits callee args stack depth w).finish limits :=
    finish_eq_of_steps_le ((Nat.le_add_right _ _).trans h) (Nat.le_sub_of_add_le h)
  calc (call limits callee args stack depth (w.spend n)).finish limits
      = (call (lower.extend n) callee args stack depth (w.after n #[])).finish
          (lower.extend n) := by rw [hextend, World.spend_eq_after]
    _ = ((call lower callee args stack depth w).after (lower.extend n).steps n #[]).finish
          (lower.extend n) := by rw [call_after (lower.extend n).steps]
    _ = ((call lower callee args stack depth w).finish lower).after (lower.extend n).steps n #[] :=
        finish_after _
    _ = ((call limits callee args stack depth w).finish limits).spend n := by
        rw [hlower]
        exact after_eq_spend hspends ((Nat.le_add_right _ _).trans h) _ _

end Machine

/-- A request takes no step back, and no line. -/
theorem Evaluator.precedes_answer (limits : Limits) (e : Evaluator) (r : Request) :
    Machine.Precedes e.world (e.answer limits r).2.world := by
  have hstart : Machine.Precedes e.world (r.start limits e).world := by
    cases r with
    | eval form scope => exact .refl _
    | apply callee args => exact (Machine.calls_call callee args [] e.depth e.world).precedes
  rw [answer_eq_finish]
  exact hstart.trans (Machine.precedes_finish limits (r.start limits e))

end OutlineLisp
