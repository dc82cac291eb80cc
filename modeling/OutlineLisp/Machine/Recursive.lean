import OutlineLisp.Machine.Basic

/-!
# Evaluation by recursion

The meaning of forms, said without a machine: one function evaluates a form by evaluating its parts
and, for a call of a closure, the closure's body one call deeper. It is the standard against which
the machine can be measured.

The recursion ends for the same reason as the machine's runs: a call uses up one of the calls that
the limit allows, and everything else goes on to a part of the form.

## What the standard shares with the machine

The operations on worlds and scopes are those of the machine. What they do is said here, with the
lemmas that say so.

* A form costs one step. `World.tick` counts it and does nothing else, and the form is refused
  exactly if no fewer steps were taken before than the limit allows (`Limits.exceeded_tick_iff`).
* A name means what the scope binds it to, or else what it means in the parent
  (`Store.lookup?_eq_or`). It is a fault if no scope binds it (`Store.lookup`).
* A call of a closure is refused exactly if no fewer calls are in progress than the limit allows.
  Otherwise `World.enter` makes one scope, numbered by the scopes before, inside the scope of the
  closure: names mean in it the arguments of the parameters, and else what they mean there
  (`Store.lookup?_child_self`), and no other scope changes (`Store.keptIn_child`).
* `Params.bind` lists the names of the slots, each with the argument in its place or with nil, of
  which the last one for a name counts (`Params.lookup_reverse_bindSlots`).
* The fault about an operator shows a name between quotes and any other form as it is displayed
  (`Form.operatorText`).

## Main definitions

* `Form.evaluate`: the outcome of a form, and the world after it.
* `Form.evaluateAll`: the outcomes of forms from left to right, up to the first fault.
* `Value.invoke`: the outcome of a call, given the meaning of bodies.
-/

namespace OutlineLisp

/-- A value or a fault, and the world after it. -/
abbrev Attempt (α : Type) : Type := Except Fault α × World

namespace Attempt

variable {α β : Type}

/-- Go on with the value of an attempt, if it has one. -/
def andThen (a : Attempt α) (f : α → World → Attempt β) : Attempt β :=
  match a with
  | (.ok v, w) => f v w
  | (.error fault, w) => (.error fault, w)

@[simp] theorem andThen_ok (v : α) (w : World) (f : α → World → Attempt β) :
    andThen (.ok v, w) f = f v w := rfl

@[simp] theorem andThen_error (fault : Fault) (w : World) (f : α → World → Attempt β) :
    andThen (.error fault, w) f = (.error fault, w) := rfl

end Attempt

/-- The outcome of a call. A primitive answers at once, may say a line and gives an identity away.
`body` is the meaning of a closure's body one call deeper, in the scope that is made for it; it is
asked only if one more call is allowed. -/
def Value.invoke (limits : Limits) (depth : Nat) (callee : Value) (args : List Value) (w : World)
    (body : depth < limits.calls → Form → ScopeId → World → Attempt Value) : Attempt Value :=
  match callee with
  | .primitive p =>
    match p.result w.fresh args with
    | .ok v => (.ok v, (w.say (p.said? args)).draw)
    | .error fault => (.error fault, w)
  | .closure c =>
    if h : depth < limits.calls then
      body h c.body w.store.size (w.enter c.scope (c.params.bind args))
    else (.error (.exhausted (.calls limits.calls)), w)
  | v => (.error (.notCallable v.display), w)

namespace Form

mutual

/-- The outcome of a form in a scope, with `depth` calls in progress, and the world after it. The
step is counted first, and nothing is evaluated if that exceeds the limit. -/
def evaluate (limits : Limits) (depth : Nat) (form : Form) (scope : ScopeId) (w : World) :
    Attempt Value :=
  if limits.exceeded w.tick then (.error (.exhausted (.steps limits.steps)), w.tick)
  else
    match form with
    | nil => (.ok .nil, w.tick)
    | number x => (.ok (.number x), w.tick)
    | text s => (.ok (.text s), w.tick)
    | symbol name => (w.tick.store.lookup scope name, w.tick)
    | lambda params body => (.ok (.closure ⟨w.tick.fresh, params, body, scope⟩), w.tick.draw)
    | cond test consequent none =>
      (evaluate limits depth test scope w.tick).andThen fun v w =>
        if v.truthy then evaluate limits depth consequent scope w else (.ok .nil, w)
    | cond test consequent (some alternative) =>
      (evaluate limits depth test scope w.tick).andThen fun v w =>
        if v.truthy then evaluate limits depth consequent scope w
        else evaluate limits depth alternative scope w
    | call operator operands =>
      (evaluate limits depth operator scope w.tick).andThen fun callee w =>
        if callee.callable then
          (evaluateAll limits depth operands scope w).andThen fun args w =>
            callee.invoke limits depth args w fun _ body scope w =>
              evaluate limits (depth + 1) body scope w
        else (.error (.notCallable operator.operatorText), w)
termination_by (limits.calls - depth, sizeOf form)
decreasing_by all_goals simp only [Prod.lex_def, call.sizeOf_spec, cond.sizeOf_spec,
  Option.some.sizeOf_spec, true_and]; omega

/-- The outcomes of forms from left to right, up to the first fault. -/
def evaluateAll (limits : Limits) (depth : Nat) (forms : List Form) (scope : ScopeId) (w : World) :
    Attempt (List Value) :=
  match forms with
  | [] => (.ok [], w)
  | form :: forms =>
    (evaluate limits depth form scope w).andThen fun v w =>
      (evaluateAll limits depth forms scope w).andThen fun vs w => (.ok (v :: vs), w)
termination_by (limits.calls - depth, sizeOf forms)
decreasing_by all_goals simp only [Prod.lex_def, List.cons.sizeOf_spec, true_and]; omega

end

end Form

end OutlineLisp
