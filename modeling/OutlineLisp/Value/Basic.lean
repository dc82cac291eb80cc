import OutlineLisp.Fault
import OutlineLisp.Form.Basic

/-!
# Values

What a form evaluates to. Lists and closures have an *identity*, a number drawn when they are made:
two of them are the same value only if they were made by the same evaluation. Texts, numbers and the
others have none and are the same when they are equal.

A list is what the primitives build and take apart as a pair; it may have any number of items.

## Main definitions

* `Closure`, `Value`: functions with their scope, and values.
* `Value.truthy`, `Value.callable`, `Value.type`: what operations ask of a value.
* `Value.display`: a value as users see it.
* `Value.same`: equality by identity.
* `Value.alike`: equality by contents.
-/

namespace OutlineLisp

/-- The number of a scope. -/
abbrev ScopeId := Nat

/-- A function together with the scope in which it was made. -/
structure Closure where
  identity : Nat
  params : Params
  body : Form
  scope : ScopeId

/-- What a form evaluates to. -/
inductive Value where
  | number (x : Float)
  | text (s : String)
  | bool (b : Bool)
  | nil
  | list (identity : Nat) (items : List Value)
  | closure (c : Closure)
  | primitive (p : Primitive)

instance : Inhabited Value := ⟨.nil⟩

namespace Value

/-- Whether a condition holds. Only `false`, zero and nil do not. -/
def truthy : Value → Bool
  | bool b => b
  | number x => x != 0
  | nil => false
  | _ => true

/-- Whether a value is a function. -/
def callable : Value → Bool
  | closure _ => true
  | primitive _ => true
  | _ => false

/-- The type of a value. -/
def type : Value → ValueType
  | number _ => .number
  | text _ => .text
  | bool _ => .boolean
  | nil => .nil
  | list _ _ => .pair
  | closure _ => .function
  | primitive _ => .function

mutual

/-- A value as users see it. Nil is empty, and the items of a list are separated by commas. -/
def display : Value → String
  | number x => Number.display x
  | text s => s
  | bool b => if b then "true" else "false"
  | nil => ""
  | list _ items => displayItems items
  | closure _ => "<function>"
  | primitive _ => "<function>"

/-- Items as users see them, separated by commas. -/
def displayItems : List Value → String
  | [] => ""
  | [item] => display item
  | item :: items => display item ++ "," ++ displayItems items

end

/-- Whether two values are the same. Lists and closures are the same only as themselves, and not a
number is the same as nothing. -/
def same : Value → Value → Bool
  | number x, number y => x == y
  | text s, text t => s == t
  | bool a, bool b => a == b
  | nil, nil => true
  | list i _, list j _ => i == j
  | closure c, closure d => c.identity == d.identity
  | primitive p, primitive q => p == q
  | _, _ => false

mutual

/-- Whether two values are equal by their contents. Functions are compared as by `same`. -/
def alike : Value → Value → Bool
  | list _ items, v =>
    match v with
    | list _ others => alikeItems items others
    | _ => false
  | u, v => same u v

/-- Whether two runs of items are equal by their contents. -/
def alikeItems : List Value → List Value → Bool
  | [], [] => true
  | u :: us, v :: vs => alike u v && alikeItems us vs
  | _, _ => false

end

/-- A function as it is listed for inspection. Other values are not listed this way. -/
def inspect? : Value → Option String
  | closure c => some ("Closure \x7b params: " ++ c.params.inspect ++ ", .. \x7d")
  | primitive p => some ("Primitive(" ++ p.name ++ ")")
  | _ => none

end Value

namespace Params

/-- Slots with the arguments that they take. A missing argument is nil, and arguments beyond the
last slot are dropped. -/
def bindSlots : List (Option String) → List Value → List (String × Value)
  | [], _ => []
  | some name :: slots, args => (name, args.headD .nil) :: bindSlots slots args.tail
  | none :: slots, args => bindSlots slots args.tail

/-- The names of parameters with the arguments that they take, in the order of the slots. Of two
slots with one name the later wins. -/
def bind (ps : Params) (args : List Value) : List (String × Value) := bindSlots ps.slots args

end Params

end OutlineLisp
