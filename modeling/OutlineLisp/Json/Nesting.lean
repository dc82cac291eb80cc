import OutlineLisp.Json.Report

/-!
# How deep a JSON text may be nested, and what texts write

Whoever reads a JSON text goes into the arrays and objects that it knows and passes over the others.
The arrays and objects that it is inside of at one time are limited; what is passed over may be
nested as it likes.

The limit belongs to texts and not to values: reading a value has none. Likewise the numbers in a
text are rounded stepwise, where reading a value leaves the rounding open.

## Main definitions

* `Json.levels`: the levels of arrays and objects in a value.
* `Json.nodeLevels`, `Json.reportLevels`: those that reading a node or a report goes into.
* `Limits.ofText?`, `Node.ofText?`, `Report.ofText?`: what a text writes.
-/

namespace OutlineLisp

namespace Json

mutual

/-- The levels of arrays and objects in a value. -/
def levels : Json → Nat
  | array items => levelsOfItems items + 1
  | object members => levelsOfMembers members + 1
  | _ => 0

/-- The most levels in one of several items. -/
def levelsOfItems : List Json → Nat
  | [] => 0
  | item :: items => max (levels item) (levelsOfItems items)

/-- The most levels in one of several members. -/
def levelsOfMembers : List (Option (List Char) × Json) → Nat
  | [] => 0
  | (_, value) :: members => max (levels value) (levelsOfMembers members)

end

mutual

/-- The levels that reading a node goes into. -/
def nodeLevels : Json → Nat
  | object members => levelsOfParts members + 1
  | _ => 0

/-- The most levels in one of the parts of a node. -/
def levelsOfParts : List (Option (List Char) × Json) → Nat
  | [] => 0
  | (key, value) :: members =>
    max
      (if key = some "children".toList then childLevels value
      else if key = some "type".toList then levels value
      else 0)
      (levelsOfParts members)

/-- The levels that reading the children of a node goes into. -/
def childLevels : Json → Nat
  | array items => levelsOfNodes items + 1
  | _ => 0

/-- The most levels that reading one of several nodes goes into. -/
def levelsOfNodes : List Json → Nat
  | [] => 0
  | item :: items => max (nodeLevels item) (levelsOfNodes items)

end

/-- The most levels in one of the members of an object, by what is known of their keys. -/
def levelsUnder (known : List (String × (Json → Nat))) : Json → Nat
  | object members =>
    (members.map fun (key, value) =>
      match known.find? fun k => key = some k.1.toList with
      | some (_, f) => f value
      | none => 0).foldl max 0 + 1
  | _ => 0

/-- The levels that reading a report goes into. Nothing inside a warning is passed over. -/
def reportLevels : Json → Nat :=
  levelsUnder
    [("output", levels), ("ast", nodeLevels), ("warnings", levelsUnder [("warnings", levels)])]

/-- How many levels the reader of a text goes into. -/
def maxLevels : Nat := 127

/-- The value of a text, unless reading it goes into too many levels. -/
def ofTextWithin? (levelsOf : Json → Nat) (text : String) : Option Json :=
  (ofText? text.toList).filter fun j => levelsOf j ≤ maxLevels

end Json

/-- The limits that a text writes. -/
def Limits.ofText? (text : String) : Option Limits :=
  (Json.ofText? text.toList).bind Limits.ofJson?

/-- The node that a text writes. -/
def Node.ofText? (text : String) : Option Node :=
  (Json.ofTextWithin? Json.nodeLevels text).bind (Node.ofJson? .stepwise)

/-- The report that a text writes. -/
def Report.ofText? (text : String) : Option Report :=
  (Json.ofTextWithin? Json.reportLevels text).bind (Report.ofJson? .stepwise)

end OutlineLisp
