import OutlineLisp.Machine.Run

/-!
# What a step can do

Everything that one step of the machine can do, with the conditions under which it does so: one
relation for the beginning of a form, one for a call, one for the return of a value to the work on
top of the stack, and one for the step as a whole. An invariant of the machine is checked against
these cases, and a run keeps whatever its steps keep.

## Main definitions

* `Machine.Begins`, `Machine.Calls`, `Machine.Resumes`: the cases of the parts of a step.
* `Machine.Transition`: the cases of a step.

## Main results

* `Machine.transition_step`: every step is one of these cases.
* `Machine.run_induction`: what holds at the end of a run.
-/

namespace OutlineLisp

/-- The steps are used up if as many have been taken as there may be. -/
theorem Limits.exceeded_tick_iff {limits : Limits} {w : World} :
    limits.exceeded w.tick = true ↔ limits.steps ≤ w.steps := by
  rw [exceeded, decide_eq_true_eq]
  exact Nat.lt_succ_iff

/-- A step is left if fewer have been taken than there may be. -/
theorem Limits.exceeded_tick_eq_false_iff {limits : Limits} {w : World} :
    limits.exceeded w.tick = false ↔ w.steps < limits.steps := by
  rw [← Bool.not_eq_true, exceeded_tick_iff, Nat.not_le]

namespace World

@[simp] theorem store_say (w : World) (line : Option String) : (w.say line).store = w.store := by
  cases line <;> rfl

@[simp] theorem store_draw (w : World) : w.draw.store = w.store := rfl

@[simp] theorem store_tick (w : World) : w.tick.store = w.store := rfl

@[simp] theorem store_enter (w : World) (p : ScopeId) (bindings : List (String × Value)) :
    (w.enter p bindings).store = w.store.child p bindings := rfl

end World

namespace Machine

/-- The world after a step, whether it was the last or not. -/
def Step.world : Step → World
  | .next s => s.world
  | .stop r => r.world

@[simp] theorem Step.world_next (s : State) : (Step.next s).world = s.world := rfl

@[simp] theorem Step.world_stop (r : Result) : (Step.stop r).world = r.world := rfl

/-- How a form begins to be evaluated. -/
inductive Begins (scope : ScopeId) (stack : List Frame) (depth : Nat) (w : World) :
    Form → Step → Prop where
  | nil : Begins scope stack depth w .nil (.next ⟨.give .nil, stack, depth, w⟩)
  | number (x : Float) :
    Begins scope stack depth w (.number x) (.next ⟨.give (.number x), stack, depth, w⟩)
  | text (s : String) :
    Begins scope stack depth w (.text s) (.next ⟨.give (.text s), stack, depth, w⟩)
  /-- A name that is bound means a value. -/
  | bound {name : String} {v : Value} (h : w.store.lookup? scope name = some v) :
    Begins scope stack depth w (.symbol name) (.next ⟨.give v, stack, depth, w⟩)
  /-- A name that is not bound is a fault. -/
  | unbound {name : String} (h : w.store.lookup? scope name = none) :
    Begins scope stack depth w (.symbol name) (fail (.unbound name) depth w)
  /-- A function becomes a closure, which keeps the scope. -/
  | lambda (params : Params) (body : Form) :
    Begins scope stack depth w (.lambda params body)
      (.next ⟨.give (.closure ⟨w.fresh, params, body, scope⟩), stack, depth, w.draw⟩)
  /-- A condition begins with its test. -/
  | cond (test consequent : Form) (alternative : Option Form) :
    Begins scope stack depth w (.cond test consequent alternative)
      (.next ⟨.eval test scope, .branch consequent alternative scope :: stack, depth, w⟩)
  /-- A call begins with its operator. -/
  | call (operator : Form) (operands : List Form) :
    Begins scope stack depth w (.call operator operands)
      (.next ⟨.eval operator scope, .operands operator operands scope [] :: stack, depth, w⟩)

/-- How a value is called with arguments. -/
inductive Calls (limits : Limits) (stack : List Frame) (depth : Nat) (w : World) :
    Value → List Value → Step → Prop where
  /-- A primitive answers. -/
  | answered {p : Primitive} {args : List Value} {v : Value} (h : p.result w.fresh args = .ok v) :
    Calls limits stack depth w (.primitive p) args
      (.next ⟨.give v, stack, depth, (w.say (p.said? args)).draw⟩)
  /-- A primitive cannot answer. -/
  | failed {p : Primitive} {args : List Value} {fault : Fault}
    (h : p.result w.fresh args = .error fault) :
    Calls limits stack depth w (.primitive p) args (fail fault depth w)
  /-- The body of a closure is entered, in a new scope that binds the parameters. -/
  | entered {c : Closure} {args : List Value} (h : depth < limits.calls) :
    Calls limits stack depth w (.closure c) args
      (.next ⟨.eval c.body w.store.size, .body :: stack, depth + 1,
        w.enter c.scope (c.params.bind args)⟩)
  /-- No call is left. -/
  | refused {c : Closure} {args : List Value} (h : limits.calls ≤ depth) :
    Calls limits stack depth w (.closure c) args
      (fail (.exhausted (.calls limits.calls)) depth w)
  /-- What is called is no function. -/
  | notCallable {v : Value} {args : List Value} (h : v.callable = false) :
    Calls limits stack depth w v args (fail (.notCallable v.display) depth w)

/-- How a value is returned to work that waits for it. -/
inductive Resumes (limits : Limits) (v : Value) (stack : List Frame) (depth : Nat) (w : World) :
    Frame → Step → Prop where
  /-- A test that holds chooses the consequent. -/
  | consequent {consequent : Form} {alternative : Option Form} {scope : ScopeId}
    (h : v.truthy = true) :
    Resumes limits v stack depth w (.branch consequent alternative scope)
      (.next ⟨.eval consequent scope, stack, depth, w⟩)
  /-- A test that does not hold chooses the alternative. -/
  | alternative {consequent form : Form} {scope : ScopeId} (h : v.truthy = false) :
    Resumes limits v stack depth w (.branch consequent (some form) scope)
      (.next ⟨.eval form scope, stack, depth, w⟩)
  /-- Without an alternative there is nil. -/
  | missing {consequent : Form} {scope : ScopeId} (h : v.truthy = false) :
    Resumes limits v stack depth w (.branch consequent none scope)
      (.next ⟨.give .nil, stack, depth, w⟩)
  /-- An operator that is no function is refused before any operand is evaluated. -/
  | refused {operator : Form} {operands : List Form} {scope : ScopeId} (h : v.callable = false) :
    Resumes limits v stack depth w (.operands operator operands scope [])
      (fail (.notCallable operator.operatorText) depth w)
  /-- The next operand is evaluated. -/
  | operand {operator operand : Form} {operands : List Form} {scope : ScopeId}
    {values : List Value} (hv : values = [] → v.callable = true)
    (h : operands[values.length]? = some operand) :
    Resumes limits v stack depth w (.operands operator operands scope values)
      (.next ⟨.eval operand scope, .operands operator operands scope (v :: values) :: stack,
        depth, w⟩)
  /-- After the last operand the operator is called. -/
  | call {operator : Form} {operands : List Form} {scope : ScopeId} {values args : List Value}
    {callee : Value} {r : Step} (hv : values = [] → v.callable = true)
    (hlast : operands.length ≤ values.length) (hvalues : (v :: values).reverse = callee :: args)
    (h : Calls limits stack depth w callee args r) :
    Resumes limits v stack depth w (.operands operator operands scope values) r
  /-- The body of a closure leaves its call. -/
  | body : Resumes limits v stack depth w .body (.next ⟨.give v, stack, depth - 1, w⟩)

/-- What happens next in a state. -/
inductive Transition (limits : Limits) : State → Step → Prop where
  /-- No step is left. -/
  | spent {form : Form} {scope : ScopeId} {stack : List Frame} {depth : Nat} {w : World}
    (h : limits.steps ≤ w.steps) :
    Transition limits ⟨.eval form scope, stack, depth, w⟩
      (fail (.exhausted (.steps limits.steps)) depth w.tick)
  /-- A step is taken and the form begins to be evaluated. -/
  | begins {form : Form} {scope : ScopeId} {stack : List Frame} {depth : Nat} {w : World}
    {r : Step} (h : w.steps < limits.steps) (hr : Begins scope stack depth w.tick form r) :
    Transition limits ⟨.eval form scope, stack, depth, w⟩ r
  /-- A value for which nothing waits is the outcome. -/
  | ends (v : Value) (depth : Nat) (w : World) :
    Transition limits ⟨.give v, [], depth, w⟩ (.stop ⟨.ok v, depth, w⟩)
  /-- A value is returned to the work on top of the stack. -/
  | resumes {v : Value} {frame : Frame} {stack : List Frame} {depth : Nat} {w : World} {r : Step}
    (hr : Resumes limits v stack depth w frame r) :
    Transition limits ⟨.give v, frame :: stack, depth, w⟩ r

variable {limits : Limits}

/-! ### Every step is one of the cases -/

theorem begins_begin (form : Form) (scope : ScopeId) (stack : List Frame) (depth : Nat)
    (w : World) : Begins scope stack depth w form (begin form scope stack depth w) := by
  cases form with
  | symbol name =>
    simp only [begin, Store.lookup]
    cases h : w.store.lookup? scope name with
    | some v => exact .bound h
    | none => exact .unbound h
  | nil => exact .nil
  | number x => exact .number x
  | text s => exact .text s
  | lambda params body => exact .lambda params body
  | cond test consequent alternative => exact .cond test consequent alternative
  | call operator operands => exact .call operator operands

theorem calls_call (callee : Value) (args : List Value) (stack : List Frame) (depth : Nat)
    (w : World) :
    Calls limits stack depth w callee args (call limits callee args stack depth w) := by
  cases callee with
  | primitive p =>
    simp only [call]
    split
    · next v h => exact .answered h
    · next fault h => exact .failed h
  | closure c =>
    simp only [call]
    split
    · next h => exact .refused h
    · next h => exact .entered (Nat.not_le.1 h)
  | _ => exact .notCallable rfl

theorem resumes_collect (operator : Form) (operands : List Form) (scope : ScopeId)
    (values : List Value) (v : Value) (stack : List Frame) (depth : Nat) (w : World) :
    Resumes limits v stack depth w (.operands operator operands scope values)
      (collect limits operator operands scope values v stack depth w) := by
  rw [collect]
  split
  · next h =>
    obtain ⟨hvalues, hv⟩ := Bool.and_eq_true_iff.1 h
    rw [List.isEmpty_iff.1 hvalues]
    exact .refused (by simpa using hv)
  · next h =>
    have hv : values = [] → v.callable = true := by
      rintro rfl
      simpa using h
    split
    · next operand hop => exact .operand hv hop
    · next hop =>
      split
      · next callee args hvalues =>
        have hlast : operands.length ≤ values.length := List.getElem?_eq_none_iff.1 hop
        exact .call hv hlast hvalues (calls_call callee args stack depth w)
      · next hvalues => simp at hvalues

theorem resumes_resume (v : Value) (frame : Frame) (stack : List Frame) (depth : Nat) (w : World) :
    Resumes limits v stack depth w frame (resume limits v frame stack depth w) := by
  cases frame with
  | branch consequent alternative scope =>
    simp only [resume]
    split
    · next h => exact .consequent h
    · next h =>
      have hv : v.truthy = false := by simpa using h
      cases alternative with
      | some form => exact .alternative hv
      | none => exact .missing hv
  | operands operator operands scope values =>
    exact resumes_collect operator operands scope values v stack depth w
  | body => exact .body

/-- A form begins to be evaluated if a step is left. -/
theorem step_eq_begin {limits : Limits} {form : Form} {scope : ScopeId} {stack : List Frame}
    {depth : Nat} {w : World} (h : w.steps < limits.steps) :
    step limits ⟨.eval form scope, stack, depth, w⟩ = begin form scope stack depth w.tick := by
  rw [step, Limits.exceeded_tick_eq_false_iff.2 h, if_neg Bool.false_ne_true]

/-- Every step is one of the cases. -/
theorem transition_step (limits : Limits) (s : State) : Transition limits s (step limits s) := by
  obtain ⟨control, stack, depth, w⟩ := s
  cases control with
  | eval form scope =>
    simp only [step, Limits.exceeded_tick_iff]
    split
    · next h => exact .spent h
    · next h => exact .begins (Nat.lt_of_not_le h) (begins_begin form scope stack depth w.tick)
  | give v =>
    cases stack with
    | nil => exact .ends v depth w
    | cons frame stack => exact .resumes (resumes_resume v frame stack depth w)

/-! ### Runs -/

/-- What holds at the end of a run: if the steps keep one property of states, and the last step
turns it into a property of results, then every run does so. -/
theorem run_induction {P : State → Prop} {Q : Result → Prop}
    (hnext : ∀ s t, P s → Transition limits s (.next t) → P t)
    (hstop : ∀ s r, P s → Transition limits s (.stop r) → Q r) {s : State} (hs : P s) :
    Q (run limits s) := by
  induction halts limits s with
  | intro s _ ih =>
    have htr := transition_step limits s
    rw [run_eq_finish]
    cases h : step limits s with
    | next t => exact ih t (proceed_of_step h) (hnext s t hs (h ▸ htr))
    | stop r => exact hstop s r hs (h ▸ htr)

end Machine

end OutlineLisp
