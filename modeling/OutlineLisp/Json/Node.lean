import OutlineLisp.Json.Object
import OutlineLisp.Tree.Node

/-!
# Program trees in JSON

A node is an object with its type, its value if it has one, and its children. Where the node came
from is not written, and a node that is read came from nowhere.

## Main definitions

* `Node.toJson`, `Node.ofJson?`: nodes as JSON values.
-/

namespace OutlineLisp

namespace NodeKind

/-- The name of a kind in data exchange. -/
def tag : NodeKind → String
  | program => "PROGRAM"
  | definition => "DEF"
  | expression => "EXPRESSION"
  | literal => "LITERAL"
  | symbol => "SYMBOL"

/-- The kind with a name. -/
def ofTag? (s : String) : Option NodeKind :=
  [program, definition, expression, literal, symbol].find? fun k => k.tag = s

theorem ofTag?_tag (k : NodeKind) : ofTag? k.tag = some k := by cases k <;> decide

end NodeKind

namespace Atom

/-- A value as a JSON value. -/
def toJson : Atom → Json
  | number x => .ofFloat x
  | text s => .ofString s

/-- The value of a node as read: null is no value. -/
def ofJson? (round : Rounding) : Json → Option (Option Atom)
  | .null => some none
  | .string (some s) => some (some (text (String.ofList s)))
  | .number literal => (Json.toFloat? round (.number literal)).map fun x => some (number x)
  | _ => none

end Atom

namespace Node

mutual

/-- A node as a JSON value. -/
def toJson : Node → Json
  | ⟨kind, value, children, _, _⟩ =>
    .ofMembers
      (("type", .ofString kind.tag) ::
        (match value with
          | some v => [("value", v.toJson), ("children", .array (toJsonItems children))]
          | none => [("children", .array (toJsonItems children))]))

/-- Nodes as JSON values. -/
def toJsonItems : List Node → List Json
  | [] => []
  | n :: ns => toJson n :: toJsonItems ns

end

/-- The parts of a node that have been read. -/
structure Parts where
  kind : Option NodeKind := none
  value : Option (Option Atom) := none
  children : Option (List Node) := none

/-- The node made of its parts. The type is required. -/
def Parts.toNode? (p : Parts) : Option Node :=
  p.kind.map fun kind => { kind, value := p.value.getD none, children := p.children.getD [] }

mutual

/-- The node that a JSON value writes. -/
def ofJson? (round : Rounding) : Json → Option Node
  | .object members =>
    match partsOf? round members with
    | some parts => parts.toNode?
    | none => none
  | _ => none

/-- The parts of a node under their keys. Other keys are passed over, and none of these may be
repeated. -/
def partsOf? (round : Rounding) : List (Option (List Char) × Json) → Option Parts
  | [] => some {}
  | (key, j) :: members =>
    match key, partsOf? round members with
    | some key, some parts =>
      if key = "type".toList then
        match parts.kind, j.toTag?.bind NodeKind.ofTag? with
        | none, some kind => some { parts with kind := some kind }
        | _, _ => none
      else if key = "value".toList then
        match parts.value, Atom.ofJson? round j with
        | none, some value => some { parts with value := some value }
        | _, _ => none
      else if key = "children".toList then
        match parts.children, childrenOf? round j with
        | none, some children => some { parts with children := some children }
        | _, _ => none
      else some parts
    | _, _ => none

/-- The nodes that a JSON array writes. -/
def childrenOf? (round : Rounding) : Json → Option (List Node)
  | .array items => nodesOf? round items
  | _ => none

/-- The nodes that JSON values write. -/
def nodesOf? (round : Rounding) : List Json → Option (List Node)
  | [] => some []
  | item :: items =>
    match ofJson? round item, nodesOf? round items with
    | some n, some ns => some (n :: ns)
    | _, _ => none

end

end Node

end OutlineLisp
