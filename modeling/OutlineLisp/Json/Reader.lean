import OutlineLisp.Json.Token

/-!
# Reading JSON texts

The tokens of a text are read one at a time by a machine that remembers the arrays and objects that
are still open. Nesting has no limit. Every token either leads to one next state or ends the reading
with no value.

## Main definitions

* `Json.Reader`, `Json.Reader.step`: the states of the machine, and what a token does.
* `Json.ofText?`: the value of a text.
-/

namespace OutlineLisp

namespace Json

/-- An array or object that is still open where a value is expected. -/
inductive Open where
  /-- An array with its items so far, the last one first. -/
  | array (items : List Json)
  /-- An object with its members so far, the last one first, and the key of the value. -/
  | object (members : List (Option (List Char) × Json)) (key : Option (List Char))

/-- What may come next. -/
inductive Reader where
  /-- A value. -/
  | value (stack : List Open)
  /-- The first item of an array, or its end. -/
  | firstItem (stack : List Open)
  /-- A comma, or the end of an array. -/
  | afterItem (items : List Json) (stack : List Open)
  /-- The first key of an object, or its end. -/
  | firstKey (stack : List Open)
  /-- A further key of an object. -/
  | nextKey (members : List (Option (List Char) × Json)) (stack : List Open)
  /-- The colon after a key. -/
  | afterKey (members : List (Option (List Char) × Json)) (key : Option (List Char))
      (stack : List Open)
  /-- A comma, or the end of an object. -/
  | afterMember (members : List (Option (List Char) × Json)) (stack : List Open)
  /-- Nothing. -/
  | done (j : Json)

namespace Reader

/-- Hand a complete value to what is open around it. -/
def deliver (j : Json) : List Open → Reader
  | [] => done j
  | .array items :: stack => afterItem (j :: items) stack
  | .object members key :: stack => afterMember ((key, j) :: members) stack

/-- What the first token of a value does. -/
def start? (t : Token) (stack : List Open) : Option Reader :=
  match t with
  | .openObject => some (firstKey stack)
  | .openArray => some (firstItem stack)
  | .null => some (deliver .null stack)
  | .bool b => some (deliver (.bool b) stack)
  | .number literal => some (deliver (.number literal) stack)
  | .string s => some (deliver (.string s) stack)
  | _ => none

/-- What a token does. -/
def step (r : Reader) (t : Token) : Option Reader :=
  match r, t with
  | value stack, t => start? t stack
  | firstItem stack, .closeArray => some (deliver (.array []) stack)
  | firstItem stack, t => start? t (.array [] :: stack)
  | afterItem items stack, .comma => some (value (.array items :: stack))
  | afterItem items stack, .closeArray => some (deliver (.array items.reverse) stack)
  | firstKey stack, .closeObject => some (deliver (.object []) stack)
  | firstKey stack, .string key => some (afterKey [] key stack)
  | nextKey members stack, .string key => some (afterKey members key stack)
  | afterKey members key stack, .colon => some (value (.object members key :: stack))
  | afterMember members stack, .comma => some (nextKey members stack)
  | afterMember members stack, .closeObject => some (deliver (.object members.reverse) stack)
  | _, _ => none

/-- What a run of tokens does. -/
def run? : Reader → List Token → Option Reader
  | r, [] => some r
  | r, t :: ts =>
    match r.step t with
    | some next => run? next ts
    | none => none

end Reader

/-- The value of a run of tokens. -/
def ofTokens? (ts : List Token) : Option Json :=
  match Reader.run? (.value []) ts with
  | some (.done j) => some j
  | _ => none

/-- The value of a text. -/
def ofText? (cs : List Char) : Option Json := (Token.ofText? cs).bind ofTokens?

end Json

end OutlineLisp
