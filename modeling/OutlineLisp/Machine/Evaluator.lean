import OutlineLisp.Machine.Run

/-!
# Evaluators

An evaluator is the machine at rest: a world, and the calls in progress of whoever uses it. It
evaluates forms and calls functions one after another, and the steps of all of them add up. However
an evaluation ends, the calls that it began are over afterwards.

## Main definitions

* `Evaluator`: a machine at rest.
* `Evaluator.eval`, `Evaluator.apply`: evaluate a form, and call a value.
* `Evaluator.newScope`, `Evaluator.define`, `Evaluator.clear`: work on its scopes.
-/

namespace OutlineLisp

/-- A machine at rest. -/
structure Evaluator where
  /-- The calls in progress. -/
  depth : Nat := 0
  world : World := {}

namespace Machine

/-- Whether work is a closure's body. -/
def Frame.isBody : Frame → Bool
  | .body => true
  | _ => false

/-- The calls in progress below a state of the machine. -/
def State.base (s : State) : Nat := s.depth - s.stack.countP Frame.isBody

/-- Run a state to its end. The calls that it began are over afterwards. -/
def drive (limits : Limits) (s : State) : Except Fault Value × Evaluator :=
  let r := run limits s
  (r.outcome, ⟨s.base, r.world⟩)

end Machine

namespace Evaluator

open Machine

/-- Evaluate a form in a scope. -/
def eval (limits : Limits) (e : Evaluator) (form : Form) (scope : ScopeId) :
    Except Fault Value × Evaluator :=
  drive limits ⟨.eval form scope, [], e.depth, e.world⟩

/-- Call a value with arguments. -/
def apply (limits : Limits) (e : Evaluator) (callee : Value) (args : List Value) :
    Except Fault Value × Evaluator :=
  match call limits callee args [] e.depth e.world with
  | .next s => drive limits s
  | .stop r => (r.outcome, ⟨r.depth, r.world⟩)

/-! ### Scopes -/

/-- An evaluator with one more scope, which has no parent. It is numbered by the scopes before. -/
def newRoot (e : Evaluator) (bindings : List (String × Value)) : Evaluator :=
  { e with world := { e.world with store := e.world.store.root bindings } }

/-- An evaluator with one more scope inside another. -/
def newScope (e : Evaluator) (parent : ScopeId) (bindings : List (String × Value)) : Evaluator :=
  { e with world := e.world.enter parent bindings }

/-- An evaluator in which a scope has bound a name. -/
def define (e : Evaluator) (scope : ScopeId) (name : String) (v : Value) : Evaluator :=
  { e with world := { e.world with store := e.world.store.define scope name v } }

/-- An evaluator in which a scope has bound several names in order. -/
def defineAll (e : Evaluator) (scope : ScopeId) (bindings : List (String × Value)) : Evaluator :=
  { e with world := { e.world with store := e.world.store.defineAll scope bindings } }

/-- An evaluator in which a scope has dropped its bindings. -/
def clear (e : Evaluator) (scope : ScopeId) : Evaluator :=
  { e with world := { e.world with store := e.world.store.clear scope } }

/-- The identity of a new list or closure, and the evaluator after giving it away. -/
def drawIdentity (e : Evaluator) : Nat × Evaluator :=
  (e.world.fresh, { e with world := e.world.draw })

end Evaluator

end OutlineLisp
