import OutlineLisp.Outline.Line
import OutlineLisp.Tree.Node

/-!
# The content of an item

An item between backticks is a literal: one pair of quotes around it is removed, and what remains is
a number if it is canonical as a number text, and a text otherwise. Any other item is a name. A
second marker in front of the item is stripped like the first.

## Main definitions

* `Item.literal?`: the interior of an item between backticks.
* `Item.read`: the kind and the value of an item.
-/

namespace OutlineLisp

namespace Item

/-- The character on both sides of a literal. -/
def backtick : Char := '\x60'

/-- The characters in front of the last one, if that is `c`. -/
def dropFinal? (c : Char) (cs : List Char) : Option (List Char) :=
  match cs.getLast? with
  | some last => if last = c then some cs.dropLast else none
  | none => none

/-- The interior of an item between backticks. It is not empty and holds no backtick itself. -/
def literal? : List Char → Option (List Char)
  | [] => none
  | c :: cs =>
    if c = backtick then
      match dropFinal? backtick cs with
      | some inner => if inner.isEmpty || inner.contains backtick then none else some inner
      | none => none
    else none

/-- Whether a text starts and ends with a quote of one kind. -/
def isQuotedBy (q : Char) (cs : List Char) : Bool :=
  cs.head? == some q && cs.getLast? == some q

/-- Remove one pair of quotes around a text. Of a lone quote nothing remains. -/
def unquote (cs : List Char) : List Char :=
  if isQuotedBy '\x22' cs || isQuotedBy '\x27' cs then cs.tail.dropLast else cs

/-- The value of a literal: a number if its text is canonical, the text otherwise. -/
def literalValue (inner : List Char) : Atom :=
  match Number.canonical? (unquote inner) with
  | some x => .number x
  | none => .text (String.ofList (unquote inner))

/-- The kind and the value of an item whose first marker has been stripped. -/
def read (content : List Char) : NodeKind × Atom :=
  let text := Text.trim (Line.stripMarker (Text.trim content))
  match literal? text with
  | some inner => (.literal, literalValue inner)
  | none => (.symbol, .text (String.ofList text))

end Item

end OutlineLisp
