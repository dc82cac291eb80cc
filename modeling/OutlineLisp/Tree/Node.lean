import OutlineLisp.Number.Text
import OutlineLisp.Source.Span

/-!
# Program trees

Every construct of a program is a node: a kind, perhaps a value, and children. The root holds the
definitions, a definition holds its parameters and body, and an item of a list holds its operands.
Where a node came from is recorded beside it and has no influence on what it means.

## Main definitions

* `Atom`, `NodeKind`, `Node`: values, kinds and nodes.
* `Node.definitions`: the definitions of a program, in order.
-/

namespace OutlineLisp

/-- The value of a node. -/
inductive Atom where
  | number (x : Float)
  | text (s : String)
  deriving DecidableEq

namespace Atom

/-- The text of a value; a number has none. -/
def text? : Atom → Option String
  | number _ => none
  | text s => some s

/-- A value as users see it. -/
def display : Atom → String
  | number x => Number.display x
  | text s => s

end Atom

/-- What a node stands for. -/
inductive NodeKind where
  | program
  | definition
  | expression
  | literal
  | symbol
  deriving DecidableEq, Repr

namespace NodeKind

/-- The name of a kind in messages. -/
def display : NodeKind → String
  | program => "Program"
  | definition => "Definition"
  | expression => "Expression"
  | literal => "Literal"
  | symbol => "Symbol"

/-- Whether a leaf of this kind stands for a name. -/
def isName : NodeKind → Bool
  | expression => true
  | symbol => true
  | _ => false

end NodeKind

/-- A node of a program tree. -/
structure Node where
  kind : NodeKind
  value : Option Atom := none
  children : List Node := []
  /-- The indentation level of the line that the node was read from. -/
  indent : Nat := 0
  /-- The place of that line's text. -/
  span : Span := {}

namespace Node

/-- Whether a node has no children. -/
def isLeaf (n : Node) : Bool := n.children.isEmpty

/-- The text value of a node. -/
def text? (n : Node) : Option String := n.value.bind Atom.text?

/-- The definitions of a program, in order. -/
def definitions (program : Node) : List Node :=
  program.children.filter fun n => n.kind = .definition

/-- The first definition with a name. -/
def definitionNamed? (program : Node) (name : String) : Option Node :=
  program.definitions.find? fun n => n.text? = some name

end Node

end OutlineLisp
