import OutlineLisp.Number.Remainder
import OutlineLisp.Value.Basic

/-!
# What primitives compute

A primitive takes its operands from the front of the arguments; a missing operand is nil and
arguments beyond the operands are ignored, except by `print`, which takes all of them. Its result
depends on nothing but the arguments and, for a new pair, on the identity that the pair is given.
`print` also says a line.

## Main definitions

* `Primitive.result`: the value of a call, or its fault.
* `Primitive.said?`: the line that a call says.
-/

namespace OutlineLisp

namespace Value

/-- The first operand. -/
def first (args : List Value) : Value := args.headD .nil

/-- The second operand. -/
def second (args : List Value) : Value := args.tail.headD .nil

/-- How two numbers compare. They do not compare at all if one of them is not a number. -/
def compareNumbers (x y : Float) : Option Ordering :=
  if x < y then some .lt
  else if y < x then some .gt
  else if x == y then some .eq
  else none

/-- How two texts compare, character by character and by code point. -/
def compareTexts (s t : String) : Ordering :=
  if s < t then .lt else if s = t then .eq else .gt

end Value

namespace Primitive

open Value (first second)

/-- The fault of a primitive that cannot combine its operands. -/
def mismatched (p : Primitive) (a b : Value) : Fault := .mismatch p a.type b.type

/-- The sum of two numbers. If one operand is a text, the texts of both are joined. -/
def sum (a b : Value) : Except Fault Value :=
  match a, b with
  | .number x, .number y => .ok (.number (x + y))
  | .text s, b => .ok (.text (s ++ b.display))
  | a, .text t => .ok (.text (a.display ++ t))
  | a, b => .error (mismatched .add a b)

/-- An operation on two numbers. -/
def arithmetic (p : Primitive) (f : Float → Float → Float) (a b : Value) : Except Fault Value :=
  match a, b with
  | .number x, .number y => .ok (.number (f x y))
  | a, b => .error (mismatched p a b)

/-- A comparison of two numbers or of two texts. -/
def comparison (p : Primitive) (holds : Option Ordering → Bool) (a b : Value) :
    Except Fault Value :=
  match a, b with
  | .number x, .number y => .ok (.bool (holds (Value.compareNumbers x y)))
  | .text s, .text t => .ok (.bool (holds (some (Value.compareTexts s t))))
  | a, b => .error (mismatched p a b)

/-- The first item of a list. -/
def headOf : Value → Except Fault Value
  | .list _ (item :: _) => .ok item
  | _ => .error (.notPair .car)

/-- The second item of a list, which is nil if the list has only one. -/
def tailOf : Value → Except Fault Value
  | .list _ (_ :: items) => .ok (items.headD .nil)
  | _ => .error (.notPair .cdr)

/-- The arguments as users see them, separated by spaces. -/
def lineOf (args : List Value) : String := " ".intercalate (args.map Value.display)

/-- The value of a call, or its fault. A new pair is given the identity `fresh`. -/
def result (fresh : Nat) (p : Primitive) (args : List Value) : Except Fault Value :=
  let a := first args
  let b := second args
  match p with
  | add => sum a b
  | subtract => arithmetic p (· - ·) a b
  | multiply => arithmetic p (· * ·) a b
  | divide => arithmetic p (· / ·) a b
  | remainder => arithmetic p Number.remainder a b
  | lessOrEqual => comparison p (fun o => o == some .lt || o == some .eq) a b
  | greaterOrEqual => comparison p (fun o => o == some .gt || o == some .eq) a b
  | less => comparison p (fun o => o == some .lt) a b
  | greater => comparison p (fun o => o == some .gt) a b
  | notEqual => .ok (.bool (!a.same b))
  | equal => .ok (.bool (a.same b))
  | logicalAnd => .ok (if a.truthy then b else a)
  | logicalOr => .ok (if a.truthy then a else b)
  | logicalNot => .ok (.bool (!a.truthy))
  | cons => .ok (.list fresh [a, b])
  | car => headOf a
  | cdr => tailOf a
  | print => .ok (.text (lineOf args))

/-- The line that a call says. -/
def said? (p : Primitive) (args : List Value) : Option String :=
  match p with
  | print => some (lineOf args)
  | _ => none

/-- The bindings of all primitives, in the order in which they are installed. -/
def bindings : List (String × Value) := all.map fun p => (p.name, .primitive p)

end Primitive

end OutlineLisp
