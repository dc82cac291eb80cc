import OutlineLisp.Proofs.Machine.Transition
import OutlineLisp.Proofs.Value.Identity

/-!
# Worlds that correspond

Two worlds may differ in the identities of their values and in what their scopes bind, and the
machine may still go the same way in both: it looks names up, makes closures, hands values to
primitives and enters the bodies of closures. A correspondence is a relation of worlds that each of
these operations keeps. States that wait for the same work in worlds that correspond then go the
same way to their end.

A name that means nothing in the first world may be excused from meaning nothing in the second. The
first run ends where it looks such a name up, and nothing is said about the second one.

## Main definitions

* `Machine.Frame.renumber`, `Machine.Control.renumber`: the same work with other identities.
* `Machine.Correspondence`: a relation of worlds that all operations keep.
* `Machine.Correspondence.OnState`, `Machine.Correspondence.OnResult`: what it says about states and
  results.
* `Machine.Correspondence.Excuses`: results that end with a name that is excused.

## Main results

* `Machine.Correspondence.step`: a step keeps a correspondence, unless the first run ends.
* `Machine.Correspondence.run`, `Machine.Correspondence.OnStep.finish`: so does a run.
-/

namespace OutlineLisp

namespace Machine

/-! ### Work with other identities -/

/-- Work that waits, with other identities. -/
def Frame.renumber (π : ℕ → ℕ) : Frame → Frame
  | .branch consequent alternative scope => .branch consequent alternative scope
  | .operands operator forms scope values =>
    .operands operator forms scope (values.map (Value.renumber π))
  | .body => .body

/-- What happens next, with other identities. -/
def Control.renumber (π : ℕ → ℕ) : Control → Control
  | .eval form scope => .eval form scope
  | .give v => .give (v.renumber π)

/-! ### Correspondences -/

/-- A relation of worlds that all operations of the machine keep. What the second world has in place
of an identity of the first is given by `π`. -/
structure Correspondence (π : ℕ → ℕ) where
  worlds : World → World → Prop
  /-- The names that may mean something in the second world though they mean nothing in the
  first. -/
  excused : String → Prop
  injective : π.Injective
  steps : ∀ {w w' : World}, worlds w w' → w'.steps = w.steps
  size : ∀ {w w' : World}, worlds w w' → w'.store.size = w.store.size
  fresh : ∀ {w w' : World}, worlds w w' → π w.fresh = w'.fresh
  lookup? : ∀ {w w' : World}, worlds w w' → ∀ (scope : ScopeId) (x : String),
    w'.store.lookup? scope x = (w.store.lookup? scope x).map (Value.renumber π) ∨
      w.store.lookup? scope x = none ∧ excused x
  tick : ∀ {w w' : World}, worlds w w' → worlds w.tick w'.tick
  draw : ∀ {w w' : World}, worlds w w' → worlds w.draw w'.draw
  say : ∀ {w w' : World}, worlds w w' → ∀ line, worlds (w.say line) (w'.say line)
  enter : ∀ {w w' : World}, worlds w w' → ∀ (scope : ScopeId) (ps : Params) (args : List Value),
    worlds (w.enter scope (ps.bind args))
      (w'.enter scope (ps.bind (args.map (Value.renumber π))))

namespace Correspondence

variable {π : ℕ → ℕ} (C : Correspondence π)

/-- Whether states wait for the same work in worlds that correspond. -/
structure OnState (s s' : State) : Prop where
  control : s'.control = s.control.renumber π
  stack : s'.stack = s.stack.map (Frame.renumber π)
  depth : s'.depth = s.depth
  world : C.worlds s.world s'.world

/-- Whether runs end with the same, in worlds that correspond. Faults have no identities. -/
structure OnResult (r r' : Result) : Prop where
  outcome : r'.outcome = r.outcome.map (Value.renumber π)
  depth : r'.depth = r.depth
  world : C.worlds r.world r'.world

/-- Whether a run ends with a name that is excused. -/
def Excuses (r : Result) : Prop := ∃ x, C.excused x ∧ r.outcome = .error (.unbound x)

/-- What a correspondence says about steps. -/
inductive OnStep : Step → Step → Prop where
  | next {s s' : State} (h : C.OnState s s') : OnStep (.next s) (.next s')
  | stop {r r' : Result} (h : C.OnResult r r') : OnStep (.stop r) (.stop r')
  | excused {r : Result} {next : Step} (h : C.Excuses r) : OnStep (.stop r) next

variable {C} {limits : Limits} {w w' : World}

theorem fail (f : Fault) (depth : ℕ) (hw : C.worlds w w') :
    C.OnStep (Machine.fail f depth w) (Machine.fail f depth w') := .stop ⟨rfl, rfl, hw⟩

theorem exceeded (hw : C.worlds w w') (limits : Limits) :
    limits.exceeded w' = limits.exceeded w := by
  rw [Limits.exceeded, Limits.exceeded, C.steps hw]

/-! ### Steps -/

/-- A form begins alike. -/
theorem begin (form : Form) (scope : ScopeId) (stack : List Frame) (depth : ℕ)
    (hw : C.worlds w w') :
    C.OnStep (Machine.begin form scope stack depth w)
      (Machine.begin form scope (stack.map (Frame.renumber π)) depth w') := by
  cases form with
  | nil | number | text | cond | call => exact .next ⟨rfl, rfl, rfl, hw⟩
  | symbol name =>
    rcases C.lookup? hw scope name with hsame | ⟨hnone, hname⟩
    · simp only [Machine.begin, Store.lookup, hsame]
      cases w.store.lookup? scope name with
      | some v => exact .next ⟨rfl, rfl, rfl, hw⟩
      | none => exact fail _ depth hw
    · simp only [Machine.begin, Store.lookup, hnone]
      exact .excused ⟨name, hname, rfl⟩
  | lambda params body =>
    simp only [Machine.begin, ← C.fresh hw]
    exact .next ⟨rfl, rfl, rfl, C.draw hw⟩

/-- Values that differ only in identities are called alike. -/
theorem call (callee : Value) (args : List Value) (stack : List Frame) (depth : ℕ)
    (hw : C.worlds w w') :
    C.OnStep (Machine.call limits callee args stack depth w)
      (Machine.call limits (callee.renumber π) (args.map (Value.renumber π))
        (stack.map (Frame.renumber π)) depth w') := by
  cases callee with
  | primitive p =>
    have hresult := p.result_renumber C.injective w.fresh args
    rw [C.fresh hw] at hresult
    simp only [Value.renumber, Machine.call, hresult, Primitive.said?_renumber]
    cases p.result w.fresh args with
    | ok v => exact .next ⟨rfl, rfl, rfl, C.draw (C.say hw _)⟩
    | error f => exact fail f depth hw
  | closure c =>
    simp only [Value.renumber, Machine.call, C.size hw]
    split
    · exact fail _ depth hw
    · exact .next ⟨rfl, rfl, rfl, C.enter hw c.scope c.params args⟩
  | list i items =>
    have hdisplay := (Value.list i items).display_renumber π
    rw [Value.renumber_list] at hdisplay ⊢
    simp only [Machine.call, hdisplay]
    exact fail _ depth hw
  | _ => exact fail _ depth hw

/-- They are returned alike to a call that waits. -/
theorem collect (operator : Form) (operands : List Form) (scope : ScopeId) (values : List Value)
    (v : Value) (stack : List Frame) (depth : ℕ) (hw : C.worlds w w') :
    C.OnStep (Machine.collect limits operator operands scope values v stack depth w)
      (Machine.collect limits operator operands scope (values.map (Value.renumber π))
        (v.renumber π) (stack.map (Frame.renumber π)) depth w') := by
  have hreverse : (v.renumber π :: values.map (Value.renumber π)).reverse
      = (v :: values).reverse.map (Value.renumber π) := by
    rw [← List.map_cons, List.map_reverse]
  rw [Machine.collect, Machine.collect, List.isEmpty_map, Value.callable_renumber,
    List.length_map, hreverse]
  split
  · exact fail _ depth hw
  · cases operands[values.length]? with
    | some operand => exact .next ⟨rfl, rfl, rfl, hw⟩
    | none =>
      cases (v :: values).reverse with
      | nil => exact fail _ depth hw
      | cons callee args => exact call callee args stack depth hw

/-- They are returned alike to any work that waits. -/
theorem resume (v : Value) (frame : Frame) (stack : List Frame) (depth : ℕ)
    (hw : C.worlds w w') :
    C.OnStep (Machine.resume limits v frame stack depth w)
      (Machine.resume limits (v.renumber π) (frame.renumber π) (stack.map (Frame.renumber π))
        depth w') := by
  cases frame with
  | branch consequent alternative scope =>
    simp only [Frame.renumber, Machine.resume, Value.truthy_renumber]
    split
    · exact .next ⟨rfl, rfl, rfl, hw⟩
    · cases alternative <;> exact .next ⟨rfl, rfl, rfl, hw⟩
  | operands operator operands scope values =>
    exact collect operator operands scope values v stack depth hw
  | body => exact .next ⟨rfl, rfl, rfl, hw⟩

/-- **A step keeps a correspondence,** unless it ends with a name that is excused. -/
theorem step {s s' : State} (h : C.OnState s s') :
    C.OnStep (Machine.step limits s) (Machine.step limits s') := by
  obtain ⟨control, stack, depth, w⟩ := s
  obtain ⟨_, _, depth', w'⟩ := s'
  obtain ⟨rfl, rfl, hdepth, hw⟩ := h
  obtain rfl : depth' = depth := hdepth
  cases control with
  | eval form scope =>
    simp only [Control.renumber, Machine.step, exceeded (C.tick hw)]
    split
    · exact fail _ _ (C.tick hw)
    · exact begin form scope stack _ (C.tick hw)
  | give v =>
    cases stack with
    | nil => exact .stop ⟨rfl, rfl, hw⟩
    | cons frame stack => exact resume v frame stack _ hw

/-! ### Runs -/

/-- **A run keeps a correspondence,** unless it ends with a name that is excused. -/
theorem run {s s' : State} (h : C.OnState s s') :
    C.OnResult (Machine.run limits s) (Machine.run limits s') ∨
      C.Excuses (Machine.run limits s) := by
  induction halts limits s generalizing s' with
  | intro s _ ih =>
    have hstep : C.OnStep (Machine.step limits s) (Machine.step limits s') := step h
    rw [run_eq_finish, run_eq_finish limits s']
    generalize hr : Machine.step limits s = r at hstep ⊢
    generalize Machine.step limits s' = r' at hstep ⊢
    cases hstep with
    | next h => exact ih _ (proceed_of_step hr) h
    | stop h => exact .inl h
    | excused h => exact .inr h

/-- The same for a run that begins with a step. -/
theorem OnStep.finish {r r' : Step} (h : C.OnStep r r') :
    C.OnResult (r.finish limits) (r'.finish limits) ∨ C.Excuses (r.finish limits) := by
  cases h with
  | next h => exact run h
  | stop h => exact .inl h
  | excused h => exact .inr h

end Correspondence

end Machine

end OutlineLisp
