import OutlineLisp.Primitive
import OutlineLisp.Tree.Node

/-!
# Faults

Whatever stops a program after it has been read is a fault: a node that denotes no form, an unbound
name, a value called that is no function, an operand of the wrong type, or a limit passed.

## Main definitions

* `Fault`, `Fault.message`: the causes and their texts.
-/

namespace OutlineLisp

/-- The type of a value, as far as operations distinguish it. -/
inductive ValueType where
  | number
  | text
  | boolean
  | nil
  | pair
  | function
  deriving DecidableEq, Repr

/-- The name of a type. -/
def ValueType.display : ValueType → String
  | number => "number"
  | text => "string"
  | boolean => "boolean"
  | nil => "nil"
  | pair => "pair"
  | function => "function"

/-- A limit that can be passed. -/
inductive Limit where
  /-- The nesting of a form. -/
  | nesting (levels : Nat)
  /-- The steps of a run. -/
  | steps (most : Nat)
  /-- The calls in progress at one time. -/
  | calls (most : Nat)
  deriving DecidableEq, Repr

/-- What is said of a limit that has been passed. -/
def Limit.display : Limit → String
  | nesting levels => "expression nesting deeper than " ++ toString levels ++ " levels"
  | steps most => "gas limit of " ++ toString most ++ " steps reached"
  | calls most => "maximum call depth of " ++ toString most ++ " exceeded"

/-- Why a program stopped. -/
inductive Fault where
  /-- A node of this kind and value denotes no form. -/
  | malformed (kind : NodeKind) (value : Option Atom)
  /-- A name has no value. -/
  | unbound (name : String)
  /-- What is called, as shown, is no function. -/
  | notCallable (shown : String)
  /-- A primitive that takes pairs apart was given something else. -/
  | notPair (p : Primitive)
  /-- A limit was passed. -/
  | exhausted (limit : Limit)
  /-- A primitive cannot combine operands of these types. -/
  | mismatch (p : Primitive) (left right : ValueType)
  deriving DecidableEq

namespace Fault

/-- What is said of operands that a primitive cannot combine. -/
def mismatchText (p : Primitive) (left right : ValueType) : String :=
  match p with
  | .add => "cannot add " ++ left.display ++ " and " ++ right.display
  | p => "cannot apply '" ++ p.name ++ "' to " ++ left.display ++ " and " ++ right.display

/-- The value of a node that denotes no form. -/
def valueText : Option Atom → String
  | some value => "'" ++ value.display ++ "'"
  | none => "none"

/-- The text of a fault. -/
def message : Fault → String
  | malformed kind value =>
    "Unexpected node type in transform: " ++ kind.display ++ " with value: " ++ valueText value
  | unbound name => "Undefined symbol: " ++ name
  | notCallable shown => "Attempt to call non-function: " ++ shown
  | notPair p => p.name ++ ": expected a cons cell"
  | exhausted limit => "Resource exhausted: " ++ limit.display
  | mismatch p left right => "Type mismatch: " ++ mismatchText p left right

end Fault

end OutlineLisp
