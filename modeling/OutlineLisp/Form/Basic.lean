import OutlineLisp.Number.Text
import OutlineLisp.Text.Quoted

/-!
# Forms

A form is an expression ready for evaluation. Whether an item is a condition, a function or a call
is decided once, when the form is made, and not while it is evaluated.

The parameters of a function are slots. Argument `i` goes to slot `i`; a slot without a name drops
its argument.

## Main definitions

* `Params`, `Form`: parameters and forms.
* `Params.slots`: the slots that parameters stand for.
* `Form.display`: a form as an S-expression.
-/

namespace OutlineLisp

/-- How the arguments of a call are named. -/
inductive Params where
  /-- No argument has a name. -/
  | nullary
  /-- The first argument has a name. -/
  | single (name : String)
  /-- One slot per argument. -/
  | positional (slots : List (Option String))
  deriving DecidableEq, Repr

namespace Params

/-- The slots that parameters stand for. -/
def slots : Params → List (Option String)
  | nullary => []
  | single name => [some name]
  | positional slots => slots

/-- The number of slots, named or not. -/
def arity (ps : Params) : Nat := ps.slots.length

@[simp] theorem slots_nullary : nullary.slots = [] := rfl

@[simp] theorem slots_single (name : String) : (single name).slots = [some name] := rfl

@[simp] theorem slots_positional (slots : List (Option String)) :
    (positional slots).slots = slots := rfl

/-- A name between quotes. -/
def quoted (name : String) : String := String.ofList (Text.quote name.toList)

/-- A slot as it is listed for inspection. -/
def inspectSlot : Option String → String
  | some name => "Some(" ++ quoted name ++ ")"
  | none => "None"

/-- Parameters as they are listed for inspection. -/
def inspect : Params → String
  | nullary => "Nullary"
  | single name => "Single(" ++ quoted name ++ ")"
  | positional slots => "Positional([" ++ ", ".intercalate (slots.map inspectSlot) ++ "])"

end Params

/-- An expression ready for evaluation. -/
inductive Form where
  /-- The value of an operand that is missing. -/
  | nil
  | number (x : Float)
  | text (s : String)
  /-- A name. -/
  | symbol (name : String)
  /-- A condition, its consequent and perhaps its alternative. -/
  | cond (test consequent : Form) (alternative : Option Form)
  /-- A function. -/
  | lambda (params : Params) (body : Form)
  /-- A call. -/
  | call (operator : Form) (operands : List Form)
  deriving Inhabited

namespace Form

mutual

/-- A form as an S-expression. -/
def display : Form → String
  | nil => "nil"
  | number x => Number.display x
  | text s => String.ofList (Text.quote s.toList)
  | symbol name => name
  | cond test consequent none => "(if " ++ display test ++ " " ++ display consequent ++ ")"
  | cond test consequent (some alternative) =>
    "(if " ++ display test ++ " " ++ display consequent ++ " " ++ display alternative ++ ")"
  | lambda params body => "(lambda/" ++ toString params.arity ++ " " ++ display body ++ ")"
  | call operator operands => "(" ++ display operator ++ displayOperands operands ++ ")"

/-- Operands as S-expressions, each after a space. -/
def displayOperands : List Form → String
  | [] => ""
  | operand :: operands => " " ++ display operand ++ displayOperands operands

end

end Form

end OutlineLisp
