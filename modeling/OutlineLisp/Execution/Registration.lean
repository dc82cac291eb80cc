import OutlineLisp.Form.OfNode
import OutlineLisp.Machine.Evaluator

/-!
# Registration

Before a program runs, each of its definitions with a body becomes a closure in the global scope, in
the order of the document; so definitions may refer to each other and to themselves in any order,
and of two with one name the later wins. The first definition that denotes no function ends the
registration.

## Main definitions

* `Evaluator.global`: an evaluator whose only scope binds the primitives.
* `Evaluator.register`: bind definitions in a scope.
-/

namespace OutlineLisp

namespace Evaluator

/-- The number of the first scope. -/
def globalScope : ScopeId := 0

/-- An evaluator whose only scope binds the primitives. -/
def global : Evaluator := newRoot {} Primitive.bindings

/-- Bind definitions in a scope, one after another. -/
def register (limits : Limits) (scope : ScopeId) :
    List Node → Evaluator → Except Fault Unit × Evaluator
  | [], e => (.ok (), e)
  | definition :: definitions, e =>
    match Lambda.ofDefinition definition with
    | .error fault => (.error fault, e)
    | .ok none => register limits scope definitions e
    | .ok (some l) =>
      match e.eval limits l.toForm scope with
      | (.error fault, e) => (.error fault, e)
      | (.ok v, e) =>
        register limits scope definitions (e.define scope (definition.text?.getD "") v)

end Evaluator

end OutlineLisp
