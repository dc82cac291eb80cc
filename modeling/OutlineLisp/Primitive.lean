/-!
# Primitive functions

The functions that every program can call without defining them, under the names that programs use.

## Main definitions

* `Primitive`, `Primitive.all`: the primitives, in the order in which they are installed.
* `Primitive.name`, `Primitive.ofName?`: their names.

## Main results

* `Primitive.ofName?_name`: a name determines its primitive.
-/

namespace OutlineLisp

/-- A function that programs need not define. -/
inductive Primitive where
  | add
  | subtract
  | multiply
  | divide
  | remainder
  | lessOrEqual
  | greaterOrEqual
  | less
  | greater
  | notEqual
  | equal
  | logicalAnd
  | logicalOr
  | logicalNot
  | cons
  | car
  | cdr
  | print
  deriving DecidableEq, Repr

namespace Primitive

/-- The primitives in the order in which they are installed. -/
def all : List Primitive :=
  [add, subtract, multiply, divide, remainder, lessOrEqual, greaterOrEqual, less, greater, notEqual,
    equal, logicalAnd, logicalOr, logicalNot, cons, car, cdr, print]

/-- The name under which programs call a primitive. -/
def name : Primitive → String
  | add => "+"
  | subtract => "-"
  | multiply => "*"
  | divide => "/"
  | remainder => "%"
  | lessOrEqual => "<="
  | greaterOrEqual => ">="
  | less => "<"
  | greater => ">"
  | notEqual => "!="
  | equal => "eq"
  | logicalAnd => "and"
  | logicalOr => "or"
  | logicalNot => "not"
  | cons => "cons"
  | car => "car"
  | cdr => "cdr"
  | print => "print"

/-- The primitive with a name. -/
def ofName? (s : String) : Option Primitive := all.find? fun p => p.name = s

theorem mem_all (p : Primitive) : p ∈ all := by cases p <;> decide

/-- A name determines its primitive. -/
theorem ofName?_name (p : Primitive) : ofName? p.name = some p := by cases p <;> decide

end Primitive

end OutlineLisp
