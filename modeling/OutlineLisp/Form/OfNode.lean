import OutlineLisp.Fault
import OutlineLisp.Form.Basic

/-!
# The form of a node

A leaf is a number, a text or a name. A node with children applies its value to them, except that
`if` and `lambda` make a condition and a function. The first child of `lambda` gives the parameters:
a leaf names one of them or none, and a group has an unnamed slot for its own head in front of those
of its children. A definition gives its parameters in the same way, but there the head of a group
with a text value is only a label and has no slot.

## Main definitions

* `Form.ofNode`: the form that a node denotes.
* `Params.ofLambda`, `Params.ofDefinition`: the parameters that a node gives.
* `Lambda.ofDefinition`: the function that a definition denotes, if it has a body.
-/

namespace OutlineLisp

/-- The fault of a node that denotes no form. -/
def Node.malformed (n : Node) : Fault := .malformed n.kind n.value

namespace Params

/-- The slot of a child of a group: named if the child is a leaf that stands for a name. -/
def slotOf (child : Node) : Option String :=
  if child.kind.isName && child.isLeaf then child.value.map Atom.display else none

/-- The slots of the children of a group. -/
def groupSlots (n : Node) : List (Option String) := n.children.map slotOf

/-- The parameters that a leaf gives. -/
def ofLeaf (n : Node) : Except Fault Params :=
  if n.kind = .literal then .ok nullary
  else if n.kind.isName then
    match n.value with
    | some name => .ok (single name.display)
    | none => .error n.malformed
  else .error n.malformed

/-- The parameters that the first operand of `lambda` gives. -/
def ofLambda (n : Node) : Except Fault Params :=
  if n.isLeaf then ofLeaf n else .ok (positional (none :: groupSlots n))

/-- The parameters that the first child of a definition gives. -/
def ofDefinition (n : Node) : Except Fault Params :=
  match n.value with
  | some (.text _) => if n.isLeaf then ofLeaf n else .ok (positional (groupSlots n))
  | _ => ofLambda n

end Params

/-- A function: parameters and a body. -/
structure Lambda where
  params : Params
  body : Form

namespace Form

/-- How deep a form may be nested. -/
def maxNesting : Nat := 256

/-- The form of a leaf. -/
def ofLeaf (n : Node) : Except Fault Form :=
  match n.kind, n.value with
  | .literal, some (.number x) => .ok (number x)
  | .literal, some (.text s) => .ok (text s)
  | .symbol, some name => .ok (symbol name.display)
  | .expression, some name => .ok (symbol name.display)
  | _, _ => .error n.malformed

/-- A condition made of its operands. Operands that are missing are nil, except for the
alternative, which may be absent. -/
def condOf (operands : List Form) : Form :=
  cond (operands.getD 0 nil) (operands.getD 1 nil) operands[2]?

/-- The form of a node with children, given the forms of the children. -/
def ofBranch (n : Node) (operands : List Form) : Except Fault Form :=
  match n.value with
  | none => .error n.malformed
  | some (.number x) => .ok (call (number x) operands)
  | some (.text name) =>
    if name = "if" then .ok (condOf operands)
    else if name = "lambda" then
      match n.children.head? with
      | none => .error n.malformed
      | some first => (Params.ofLambda first).map fun params => lambda params (operands.getD 1 nil)
    else .ok (call (symbol name) operands)

mutual

/-- The form of a node that lies `depth` levels below the outermost one. -/
def ofNodeAt (depth : Nat) : Node → Except Fault Form
  | ⟨kind, value, children, indent, span⟩ =>
    if maxNesting < depth then .error (.exhausted (.nesting maxNesting))
    else if children.isEmpty then ofLeaf ⟨kind, value, children, indent, span⟩
    else
      match ofNodesAt (depth + 1) children with
      | .error f => .error f
      | .ok operands => ofBranch ⟨kind, value, children, indent, span⟩ operands

/-- The forms of nodes that lie `depth` levels below the outermost one. The first fault wins. -/
def ofNodesAt (depth : Nat) : List Node → Except Fault (List Form)
  | [] => .ok []
  | n :: ns =>
    match ofNodeAt depth n with
    | .error f => .error f
    | .ok form =>
      match ofNodesAt depth ns with
      | .error f => .error f
      | .ok forms => .ok (form :: forms)

end

/-- The form that a node denotes. -/
def ofNode (n : Node) : Except Fault Form := ofNodeAt 0 n

end Form

namespace Lambda

/-- A function as a form. -/
def toForm (l : Lambda) : Form := .lambda l.params l.body

/-- The function with given parameters whose body a node denotes. -/
def withBody (params : Params) (body : Node) : Except Fault Lambda :=
  (Form.ofNode body).map fun form => ⟨params, form⟩

/-- The function that a definition denotes. A single child is the body of a function without
parameters; of several children the first gives the parameters, the second is the body, and the
others have no meaning. Without children there is no function. -/
def ofDefinition (definition : Node) : Except Fault (Option Lambda) :=
  match definition.children with
  | [] => .ok none
  | [body] => (withBody .nullary body).map some
  | first :: body :: _ =>
    match Params.ofDefinition first with
    | .error f => .error f
    | .ok params => (withBody params body).map some

end Lambda

end OutlineLisp
