import OutlineLisp.Json.Quoted
import OutlineLisp.Scope.Store
import OutlineLisp.Value.Primitive

/-!
# The evaluation machine

Evaluation runs on a stack of suspended work, so the depth of a program's recursion is limited by a
number and not by the host. A state says what happens next, either the evaluation of a form or the
return of a value to the work on top of the stack.

Everything that outlives an evaluation is a `World`: the scopes, the next identity, the steps taken
and the lines said. The number of calls in progress is part of the state, since it is the same
before and after.

Each evaluation of a form is one step, and the step counts before the limit is checked. The operator
of a call is checked before its operands are evaluated.

## Main definitions

* `Limits`, `World`: what bounds a run, and what it changes.
* `Machine.State`, `Machine.step`: states, and what happens next.
-/

namespace OutlineLisp

/-- What bounds a run. -/
structure Limits where
  /-- The most steps that a run may take. -/
  steps : Nat := UInt64.size - 1
  /-- The most calls that may be in progress at one time. -/
  calls : Nat := 10000
  deriving DecidableEq, Repr

/-- What evaluation changes. -/
structure World where
  store : Store := .empty
  /-- The identity that the next list or closure is given. -/
  fresh : Nat := 0
  /-- The steps taken so far. -/
  steps : Nat := 0
  /-- The lines said so far. -/
  lines : Array String := #[]

namespace World

/-- A world in which one more step has been taken. -/
def tick (w : World) : World := { w with steps := w.steps + 1 }

/-- A world after a line may have been said. -/
def say (w : World) : Option String → World
  | some line => { w with lines := w.lines.push line }
  | none => w

/-- A world after an identity has been given away. -/
def draw (w : World) : World := { w with fresh := w.fresh + 1 }

/-- A world with one more scope inside another. -/
def enter (w : World) (parent : ScopeId) (bindings : List (String × Value)) : World :=
  { w with store := w.store.child parent bindings }

end World

/-- What a step limit says of a world. -/
def Limits.exceeded (limits : Limits) (w : World) : Bool := limits.steps < w.steps

/-- An operator as a fault shows it: a name between quotes, any other form as it is. -/
def Form.operatorText : Form → String
  | .symbol name => String.ofList (Json.quote name.toList)
  | f => f.display

namespace Machine

/-- Work that waits for a value. -/
inductive Frame where
  /-- A condition waits for its test. -/
  | branch (consequent : Form) (alternative : Option Form) (scope : ScopeId)
  /-- A call waits for its operator or for one of its operands. The values that it has so far are
  listed from the newest to the operator's. -/
  | operands (operator : Form) (operands : List Form) (scope : ScopeId) (values : List Value)
  /-- The body of a closure is being evaluated. -/
  | body

/-- What happens next. -/
inductive Control where
  /-- A form is evaluated in a scope. -/
  | eval (form : Form) (scope : ScopeId)
  /-- A value is returned to the work on top of the stack. -/
  | give (v : Value)

/-- A state of the machine. -/
structure State where
  control : Control
  stack : List Frame
  /-- The calls in progress. -/
  depth : Nat
  world : World

/-- What an evaluation ends with. -/
structure Result where
  outcome : Except Fault Value
  depth : Nat
  world : World

/-- The outcome of one step: another state, or the end. -/
inductive Step where
  | next (s : State)
  | stop (r : Result)

/-- Stop with a fault. -/
def fail (fault : Fault) (depth : Nat) (w : World) : Step := .stop ⟨.error fault, depth, w⟩

/-- Call a value with arguments. A primitive answers at once; the body of a closure is evaluated in
a new scope inside the one in which the closure was made. -/
def call (limits : Limits) (callee : Value) (args : List Value) (stack : List Frame) (depth : Nat)
    (w : World) : Step :=
  match callee with
  | .primitive p =>
    match p.result w.fresh args with
    | .ok v => .next ⟨.give v, stack, depth, (w.say (p.said? args)).draw⟩
    | .error fault => fail fault depth w
  | .closure c =>
    if limits.calls ≤ depth then fail (.exhausted (.calls limits.calls)) depth w
    else
      .next ⟨.eval c.body w.store.size, .body :: stack, depth + 1,
        w.enter c.scope (c.params.bind args)⟩
  | v => fail (.notCallable v.display) depth w

/-- Begin to evaluate a form, its step being counted. -/
def begin (form : Form) (scope : ScopeId) (stack : List Frame) (depth : Nat) (w : World) : Step :=
  match form with
  | .nil => .next ⟨.give .nil, stack, depth, w⟩
  | .number x => .next ⟨.give (.number x), stack, depth, w⟩
  | .text s => .next ⟨.give (.text s), stack, depth, w⟩
  | .symbol name =>
    match w.store.lookup scope name with
    | .ok v => .next ⟨.give v, stack, depth, w⟩
    | .error fault => fail fault depth w
  | .lambda params body =>
    .next ⟨.give (.closure ⟨w.fresh, params, body, scope⟩), stack, depth, w.draw⟩
  | .cond test consequent alternative =>
    .next ⟨.eval test scope, .branch consequent alternative scope :: stack, depth, w⟩
  | .call operator operands =>
    .next ⟨.eval operator scope, .operands operator operands scope [] :: stack, depth, w⟩

/-- Return a value to a call that waits with some values: evaluate the next operand, or call the
operator if there is none. -/
def collect (limits : Limits) (operator : Form) (operands : List Form) (scope : ScopeId)
    (values : List Value) (v : Value) (stack : List Frame) (depth : Nat) (w : World) : Step :=
  if values.isEmpty && !v.callable then fail (.notCallable operator.operatorText) depth w
  else
    match operands[values.length]? with
    | some operand =>
      .next ⟨.eval operand scope, .operands operator operands scope (v :: values) :: stack, depth,
        w⟩
    | none =>
      match (v :: values).reverse with
      | callee :: args => call limits callee args stack depth w
      | [] => fail (.notCallable operator.operatorText) depth w

/-- Return a value to the work on top of the stack. -/
def resume (limits : Limits) (v : Value) (frame : Frame) (stack : List Frame) (depth : Nat)
    (w : World) : Step :=
  match frame with
  | .branch consequent alternative scope =>
    if v.truthy then .next ⟨.eval consequent scope, stack, depth, w⟩
    else
      match alternative with
      | some form => .next ⟨.eval form scope, stack, depth, w⟩
      | none => .next ⟨.give .nil, stack, depth, w⟩
  | .operands operator operands scope values =>
    collect limits operator operands scope values v stack depth w
  | .body => .next ⟨.give v, stack, depth - 1, w⟩

/-- What happens next in a state. -/
def step (limits : Limits) : State → Step
  | ⟨.eval form scope, stack, depth, w⟩ =>
    let w := w.tick
    if limits.exceeded w then fail (.exhausted (.steps limits.steps)) depth w
    else begin form scope stack depth w
  | ⟨.give v, [], depth, w⟩ => .stop ⟨.ok v, depth, w⟩
  | ⟨.give v, frame :: stack, depth, w⟩ => resume limits v frame stack depth w

end Machine

end OutlineLisp
