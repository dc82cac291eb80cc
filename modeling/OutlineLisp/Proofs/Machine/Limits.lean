import Mathlib.Order.Nat
import OutlineLisp.Proofs.Machine.Transition

/-!
# Limits only cut runs short

The two limits of a run are looked at in two places: the limit on steps before a form begins to be
evaluated, the limit on calls before the body of a closure is entered. Wherever they allow what
comes next they have no influence on it. So the same run under other limits goes the same way, state
by state, up to the first step that those limits refuse.

What a run needs is a pair of numbers, and so it is said with `Limits` again: a run *uses* the steps
that have been taken at its end and the most calls that were in progress at one time, and other
limits lead to the same end exactly if they are at least that.

## Main definitions

* `CutShort`: an outcome that only says that a limit was passed.
* `Machine.advance`: what happens next if the limits allow it.
* `Machine.peak`, `Machine.usage`: what a run uses.
* `Machine.SameOrCutShort`, `Machine.SameOrLonger`: what other limits make of a run.

## Main results

* `Machine.obeys_step`: a step under limits.
* `Machine.run_eq_or_cutShort`: the same run under other limits.
* `Machine.run_mono`: a run under higher limits.
-/

namespace OutlineLisp

/-- Limits are at most others if both numbers are. -/
instance : LE Limits := ⟨fun a b => a.steps ≤ b.steps ∧ a.calls ≤ b.calls⟩

theorem Limits.le_iff {a b : Limits} : a ≤ b ↔ a.steps ≤ b.steps ∧ a.calls ≤ b.calls := Iff.rfl

instance (a b : Limits) : Decidable (a ≤ b) :=
  inferInstanceAs (Decidable (a.steps ≤ b.steps ∧ a.calls ≤ b.calls))

instance : Preorder Limits where
  le_refl a := ⟨a.steps.le_refl, a.calls.le_refl⟩
  le_trans _ _ _ h h' := ⟨Nat.le_trans h.1 h'.1, Nat.le_trans h.2 h'.2⟩

/-- Whether a fault says that the steps or the calls of a run are used up. -/
inductive Fault.CutsShort : Fault → Prop where
  | steps (most : ℕ) : CutsShort (.exhausted (.steps most))
  | calls (most : ℕ) : CutsShort (.exhausted (.calls most))

/-- Whether an outcome is such a fault. -/
def CutShort {α : Type} (outcome : Except Fault α) : Prop :=
  ∃ fault, outcome = .error fault ∧ fault.CutsShort

theorem not_cutShort_ok {α : Type} (v : α) : ¬CutShort (.ok v : Except Fault α) := by
  rintro ⟨fault, h, -⟩
  cases h

theorem cutShort_steps {α : Type} (most : ℕ) :
    CutShort (.error (.exhausted (.steps most)) : Except Fault α) := ⟨_, rfl, .steps most⟩

theorem cutShort_calls {α : Type} (most : ℕ) :
    CutShort (.error (.exhausted (.calls most)) : Except Fault α) := ⟨_, rfl, .calls most⟩

namespace Machine

/-! ### What comes next, and what it needs -/

/-- The steps taken and the calls in progress in a state. -/
def State.need (s : State) : Limits := ⟨s.world.steps, s.depth⟩

/-- The steps taken and the calls in progress after a step. After the last step no call counts. -/
def Step.need : Step → Limits
  | .next s => s.need
  | .stop r => ⟨r.world.steps, 0⟩

/-- What happens next in a state if the limits allow it: what happens under limits that allow one
more step and one more call. -/
def advance (s : State) : Step := step ⟨s.world.steps + 1, s.depth + 1⟩ s

/-- Under limits a step *obeys* when it is what comes next if they allow that, and otherwise stops
the run short, with nothing said. -/
def Step.Obeys (limits : Limits) (w : World) (next r : Step) : Prop :=
  next.need ≤ limits ∧ r = next ∨
    ¬next.need ≤ limits ∧ ∃ fault, r = .stop fault ∧ CutShort fault.outcome ∧
      fault.world.lines = w.lines

variable {limits limits' : Limits}

theorem need_begin (form : Form) (scope : ScopeId) (stack : List Frame) (depth : ℕ) (w : World) :
    (begin form scope stack depth w).need ≤ ⟨w.steps, depth⟩ ∧
      (begin form scope stack depth w).need.steps = w.steps := by
  cases form with
  | symbol name =>
    simp only [begin]
    split
    · exact ⟨le_refl _, rfl⟩
    · exact ⟨⟨le_refl _, depth.zero_le⟩, rfl⟩
  | _ => exact ⟨le_refl _, rfl⟩

/-- Only a call of a closure looks at the limit on calls. -/
theorem obeys_call (callee : Value) (args : List Value) (stack : List Frame) {depth : ℕ}
    {w : World} (h : ⟨w.steps, depth⟩ ≤ limits) (steps : ℕ) :
    Step.Obeys limits w (call ⟨steps, depth + 1⟩ callee args stack depth w)
      (call limits callee args stack depth w) := by
  have hstop : ∀ fault, (fail fault depth w).need ≤ limits :=
    fun fault => ⟨h.1, limits.calls.zero_le⟩
  cases callee with
  | primitive p =>
    refine .inl ⟨?_, rfl⟩
    simp only [call]
    split
    · refine ⟨?_, h.2⟩
      cases p.said? args <;> exact h.1
    · exact hstop _
  | closure c =>
    simp only [call, if_neg (Nat.not_succ_le_self depth)]
    by_cases hc : limits.calls ≤ depth
    · rw [if_pos hc]
      exact .inr ⟨fun hle => Nat.not_succ_le_self depth (hle.2.trans hc), _, rfl,
        cutShort_calls _, rfl⟩
    · rw [if_neg hc]
      exact .inl ⟨⟨h.1, Nat.lt_of_not_le hc⟩, rfl⟩
  | _ => exact .inl ⟨hstop _, rfl⟩

theorem obeys_collect (operator : Form) (operands : List Form) (scope : ScopeId)
    (values : List Value) (v : Value) (stack : List Frame) {depth : ℕ} {w : World}
    (h : ⟨w.steps, depth⟩ ≤ limits) (steps : ℕ) :
    Step.Obeys limits w
      (collect ⟨steps, depth + 1⟩ operator operands scope values v stack depth w)
      (collect limits operator operands scope values v stack depth w) := by
  have hstop : ∀ fault, (fail fault depth w).need ≤ limits :=
    fun fault => ⟨h.1, limits.calls.zero_le⟩
  simp only [collect]
  split
  · exact .inl ⟨hstop _, rfl⟩
  · split
    · exact .inl ⟨h, rfl⟩
    · split
      · exact obeys_call _ _ stack h steps
      · exact .inl ⟨hstop _, rfl⟩

theorem obeys_resume (v : Value) (frame : Frame) (stack : List Frame) {depth : ℕ} {w : World}
    (h : ⟨w.steps, depth⟩ ≤ limits) (steps : ℕ) :
    Step.Obeys limits w (resume ⟨steps, depth + 1⟩ v frame stack depth w)
      (resume limits v frame stack depth w) := by
  cases frame with
  | branch consequent alternative scope =>
    refine .inl ⟨?_, rfl⟩
    simp only [resume]
    split
    · exact h
    · split <;> exact h
  | operands operator operands scope values =>
    exact obeys_collect operator operands scope values v stack h steps
  | body => exact .inl ⟨⟨h.1, (Nat.sub_le depth 1).trans h.2⟩, rfl⟩

/-- **A step under limits** is what comes next if the limits allow that, and otherwise stops the
run short. -/
theorem obeys_step {s : State} (h : s.need ≤ limits) :
    Step.Obeys limits s.world (advance s) (step limits s) := by
  obtain ⟨control, stack, depth, w⟩ := s
  cases control with
  | eval form scope =>
    have hnext : advance ⟨.eval form scope, stack, depth, w⟩
        = begin form scope stack depth w.tick := by
      simp [advance, step, Limits.exceeded, World.tick]
    rw [hnext]
    obtain ⟨hneed, hsteps⟩ := need_begin form scope stack depth w.tick
    by_cases hs : limits.steps < w.tick.steps
    · refine .inr ⟨fun hle => ?_, ⟨_, depth, w.tick⟩, ?_, cutShort_steps limits.steps, rfl⟩
      · exact Nat.not_le_of_lt hs (hsteps ▸ hle.1)
      · simp [step, Limits.exceeded, hs, fail]
    · refine .inl ⟨hneed.trans ⟨Nat.le_of_not_lt hs, h.2⟩, ?_⟩
      simp [step, Limits.exceeded, hs]
  | give v =>
    cases stack with
    | nil => exact .inl ⟨⟨h.1, limits.calls.zero_le⟩, rfl⟩
    | cons frame stack => exact obeys_resume v frame stack h _

/-! ### What a run leaves behind -/

/-- Whether a world can come before another: no step is taken back and no line is unsaid. -/
structure Precedes (w w' : World) : Prop where
  steps : w.steps ≤ w'.steps
  lines : w.lines.toList <+: w'.lines.toList

theorem Precedes.refl (w : World) : Precedes w w := ⟨le_refl _, List.prefix_refl _⟩

theorem Precedes.trans {w w' w'' : World} (h : Precedes w w') (h' : Precedes w' w'') :
    Precedes w w'' := ⟨h.steps.trans h'.steps, h.lines.trans h'.lines⟩

theorem precedes_say (w : World) (line : Option String) : Precedes w (w.say line) := by
  cases line with
  | none => exact .refl w
  | some line => exact ⟨le_refl _, by simp [World.say]⟩

theorem Begins.precedes {scope : ScopeId} {stack : List Frame} {depth : ℕ} {w : World}
    {form : Form} {r : Step} (h : Begins scope stack depth w form r) : Precedes w r.world := by
  cases h <;> exact ⟨le_refl _, List.prefix_refl _⟩

theorem Calls.precedes {stack : List Frame} {depth : ℕ} {w : World} {callee : Value}
    {args : List Value} {r : Step} (h : Calls limits stack depth w callee args r) :
    Precedes w r.world := by
  cases h with
  | @answered p args v h =>
    exact (precedes_say w (p.said? args)).trans ⟨le_refl _, List.prefix_refl _⟩
  | _ => exact ⟨le_refl _, List.prefix_refl _⟩

theorem Transition.precedes {s : State} {r : Step} (h : Transition limits s r) :
    Precedes s.world r.world := by
  cases h with
  | @begins form scope stack depth w r h hr =>
    have htick : Precedes w w.tick := ⟨Nat.le_succ _, List.prefix_refl _⟩
    exact htick.trans hr.precedes
  | resumes hr =>
    cases hr with
    | call hv hlast hvalues h => exact h.precedes
    | _ => exact .refl _
  | spent h => exact ⟨Nat.le_succ _, List.prefix_refl _⟩
  | ends v depth w => exact .refl w

theorem precedes_run (limits : Limits) (s : State) : Precedes s.world (run limits s).world :=
  run_induction (P := fun t => Precedes s.world t.world) (Q := fun r => Precedes s.world r.world)
    (fun _ _ ht htr => ht.trans htr.precedes) (fun _ _ ht htr => ht.trans htr.precedes) (.refl _)

theorem precedes_finish (limits : Limits) (r : Step) :
    Precedes r.world (r.finish limits).world := by
  cases r with
  | next s => exact precedes_run limits s
  | stop r => exact .refl _

/-! ### What a run uses -/

/-- The most calls that are in progress at one time, from a state to its end. -/
def peak (limits : Limits) (s : State) : ℕ :=
  match _h : step limits s with
  | .next t => max s.depth (peak limits t)
  | .stop _ => s.depth
termination_by (limits, s)
decreasing_by exact ⟨trivial, proceed_of_step ‹_›⟩

/-- What a run from a state uses: the steps taken at its end, and the most calls that are in
progress at one time. -/
def usage (limits : Limits) (s : State) : Limits :=
  ⟨(run limits s).world.steps, peak limits s⟩

/-- The most calls that are in progress at one time after a step. After the last step there is
none. -/
def Step.peak (limits : Limits) : Step → ℕ
  | .next s => Machine.peak limits s
  | .stop _ => 0

/-- What a run that begins with a step uses. -/
def Step.usage (limits : Limits) (r : Step) : Limits :=
  ⟨(r.finish limits).world.steps, r.peak limits⟩

theorem peak_eq (limits : Limits) (s : State) :
    peak limits s = max s.depth ((step limits s).peak limits) := by
  rw [peak]
  split
  · next t h => rw [h]; rfl
  · next r h => rw [h, Step.peak, Nat.max_zero]

theorem usage_eq (limits : Limits) (s : State) :
    usage limits s
      = ⟨((step limits s).usage limits).steps,
          max s.depth ((step limits s).usage limits).calls⟩ := by
  rw [usage, run_eq_finish, peak_eq]
  rfl

theorem usage_le_iff {s : State} (h : s.depth ≤ limits'.calls) :
    usage limits s ≤ limits' ↔ (step limits s).usage limits ≤ limits' := by
  rw [usage_eq, Limits.le_iff, Limits.le_iff, Nat.max_le]
  exact and_congr_right fun _ => and_iff_right h

theorem need_le_usage (limits : Limits) (s : State) : s.need ≤ usage limits s := by
  refine ⟨(precedes_run limits s).steps, ?_⟩
  rw [usage_eq]
  exact Nat.le_max_left _ _

theorem Step.need_le_usage (limits : Limits) (r : Step) : r.need ≤ r.usage limits := by
  cases r with
  | next s => exact Machine.need_le_usage limits s
  | stop r => exact le_refl _

/-- What comes next is the next state if the limits allow it. -/
theorem step_of_advance {s t : State} (hs : s.need ≤ limits) (h : advance s = .next t)
    (ht : t.need ≤ limits) : step limits s = .next t := by
  rcases obeys_step hs with ⟨-, hnext⟩ | ⟨hneed, -⟩
  · rw [hnext, h]
  · exact absurd (h ▸ ht) hneed

/-! ### The same run under other limits -/

/-- What other limits make of a run that begins with a step: all of it if they allow what it uses,
and otherwise a part that ends by saying that a limit was passed. -/
def SameOrCutShort (limits limits' : Limits) (r r' : Step) : Prop :=
  r.usage limits ≤ limits' ∧ r'.finish limits' = r.finish limits ∨
    ¬r.usage limits ≤ limits' ∧ CutShort (r'.finish limits').outcome

/-- Two steps from one place, under different limits, lead to the same end or to a cut if the runs
from the next state do. -/
theorem sameOrCutShort_of_obeys {w : World} {next r r' : Step} (hr : Step.Obeys limits w next r)
    (hr' : Step.Obeys limits' w next r')
    (hnext : ∀ t, next = .next t → t.need ≤ limits → t.need ≤ limits' →
      ¬CutShort (run limits t).outcome → SameOrCutShort limits limits' (.next t) (.next t))
    (h : ¬CutShort (r.finish limits).outcome) : SameOrCutShort limits limits' r r' := by
  rcases hr with ⟨hneed, rfl⟩ | ⟨-, fault, rfl, hcut, -⟩
  · rcases hr' with ⟨hneed', rfl⟩ | ⟨hneed', fault, rfl, hcut, -⟩
    · cases r' with
      | next t => exact hnext t rfl hneed hneed' h
      | stop r => exact .inl ⟨⟨hneed'.1, limits'.calls.zero_le⟩, rfl⟩
    · exact .inr ⟨fun hle => hneed' ((r.need_le_usage limits).trans hle), hcut⟩
  · exact absurd hcut h

/-- **The same run under other limits.** If a run is not cut short, then other limits lead to the
same end exactly if they allow what the run uses, and otherwise they cut it short. -/
theorem run_eq_or_cutShort {s : State} (hs : s.need ≤ limits) (hs' : s.need ≤ limits')
    (h : ¬CutShort (run limits s).outcome) :
    usage limits s ≤ limits' ∧ run limits' s = run limits s ∨
      ¬usage limits s ≤ limits' ∧ CutShort (run limits' s).outcome := by
  induction halts limits s with
  | intro s _ ih =>
    rw [run_eq_finish] at h
    rw [usage_le_iff hs'.2, run_eq_finish, run_eq_finish limits]
    have hnext : ∀ t, advance s = .next t → t.need ≤ limits → t.need ≤ limits' →
        ¬CutShort (run limits t).outcome → SameOrCutShort limits limits' (.next t) (.next t) := by
      intro t ht hneed hneed' h'
      exact ih t (proceed_of_step (step_of_advance hs ht hneed)) hneed hneed' h'
    exact sameOrCutShort_of_obeys (obeys_step hs) (obeys_step hs') hnext h

/-- The same for a run that begins with a call. -/
theorem finish_call_eq_or_cutShort {callee : Value} {args : List Value} {depth : ℕ} {w : World}
    (hs : ⟨w.steps, depth⟩ ≤ limits) (hs' : ⟨w.steps, depth⟩ ≤ limits')
    (h : ¬CutShort ((call limits callee args [] depth w).finish limits).outcome) :
    SameOrCutShort limits limits' (call limits callee args [] depth w)
      (call limits' callee args [] depth w) :=
  sameOrCutShort_of_obeys (obeys_call callee args [] hs 0) (obeys_call callee args [] hs' 0)
    (fun _ _ hneed hneed' h' => run_eq_or_cutShort hneed hneed' h') h

/-! ### Runs under higher limits -/

/-- What higher limits make of a run: the same, unless it was cut short, and then they go on. -/
def SameOrLonger (r r' : Result) : Prop :=
  r' = r ∨ CutShort r.outcome ∧ r.world.lines.toList <+: r'.world.lines.toList

theorem sameOrLonger_of_obeys {w : World} {next r r' : Step} (hle : limits ≤ limits')
    (hr : Step.Obeys limits w next r) (hr' : Step.Obeys limits' w next r')
    (hw : Precedes w r'.world)
    (hnext : ∀ t, next = .next t → t.need ≤ limits →
      SameOrLonger (run limits t) (run limits' t)) :
    SameOrLonger (r.finish limits) (r'.finish limits') := by
  rcases hr with ⟨hneed, rfl⟩ | ⟨-, fault, rfl, hcut, hlines⟩
  · rcases hr' with ⟨-, rfl⟩ | ⟨hneed', -⟩
    · cases r' with
      | next t => exact hnext t rfl hneed
      | stop r => exact .inl rfl
    · exact absurd (hneed.trans hle) hneed'
  · refine .inr ⟨hcut, ?_⟩
    rw [Step.finish_stop, hlines]
    exact (hw.trans (precedes_finish limits' r')).lines

/-- **A run under higher limits** is the same, or goes on where it was cut short. -/
theorem run_mono {s : State} (hle : limits ≤ limits') (hs : s.need ≤ limits) :
    SameOrLonger (run limits s) (run limits' s) := by
  induction halts limits s with
  | intro s _ ih =>
    rw [run_eq_finish, run_eq_finish limits']
    refine sameOrLonger_of_obeys hle (obeys_step hs) (obeys_step (hs.trans hle))
      (transition_step limits' s).precedes fun t ht hneed => ?_
    exact ih t (proceed_of_step (step_of_advance hs ht hneed)) hneed

/-- The same for a run that begins with a call. -/
theorem finish_call_mono {callee : Value} {args : List Value} {depth : ℕ} {w : World}
    (hle : limits ≤ limits') (hs : ⟨w.steps, depth⟩ ≤ limits) :
    SameOrLonger ((call limits callee args [] depth w).finish limits)
      ((call limits' callee args [] depth w).finish limits') :=
  sameOrLonger_of_obeys hle (obeys_call callee args [] hs 0)
    (obeys_call callee args [] (hs.trans hle) 0) (calls_call callee args [] depth w).precedes
    fun _ _ hneed => run_mono hle hneed

end Machine

end OutlineLisp
