import OutlineLisp.Json.Quoted

/-!
# JSON values and their texts

A JSON value as it is written: numbers keep their literal, objects keep the order of their members
and repeated keys, and a text whose escapes leave a surrogate unpaired is kept as no text at all. So
everything that is well formed has a value here, and whoever reads a value decides what it means.

A value is written as a run of tokens without blanks.

## Main definitions

* `Json`: values.
* `Json.Token`, `Json.tokens`: tokens, and those of a value.
* `Json.write`: the text of a value.
-/

namespace OutlineLisp

/-- A JSON value as it is written. -/
inductive Json where
  | null
  | bool (b : Bool)
  /-- A number by its literal. -/
  | number (literal : List Char)
  /-- A text, or none if its escapes leave a surrogate unpaired. -/
  | string (s : Option (List Char))
  | array (items : List Json)
  | object (members : List (Option (List Char) × Json))

namespace Json

/-- A text as a JSON value. -/
def ofString (s : String) : Json := string (some s.toList)

/-- A natural number as a JSON value. -/
def ofNat (n : Nat) : Json := number (Nat.toDigits 10 n)

/-- An object whose keys are given as strings. -/
def ofMembers (members : List (String × Json)) : Json :=
  object (members.map fun m => (some m.1.toList, m.2))

/-- The parts of a JSON text that blanks may stand between. -/
inductive Token where
  | openObject
  | closeObject
  | openArray
  | closeArray
  | comma
  | colon
  | null
  | bool (b : Bool)
  | number (literal : List Char)
  | string (s : Option (List Char))
  deriving DecidableEq, Repr

/-- A quoted text, or one of a single unpaired surrogate. -/
def quote? : Option (List Char) → List Char
  | some cs => quote cs
  | none => "\"\\ud800\"".toList

/-- The text of a token. -/
def Token.text : Token → List Char
  | openObject => ['\x7b']
  | closeObject => ['\x7d']
  | openArray => ['[']
  | closeArray => [']']
  | comma => [',']
  | colon => [':']
  | null => "null".toList
  | bool true => "true".toList
  | bool false => "false".toList
  | number literal => literal
  | string s => quote? s

mutual

/-- The tokens of a value. -/
def tokens : Json → List Token
  | null => [.null]
  | bool b => [.bool b]
  | number literal => [.number literal]
  | string s => [.string s]
  | array [] => [.openArray, .closeArray]
  | array (item :: items) => .openArray :: (tokens item ++ (tokensOfItems items ++ [.closeArray]))
  | object [] => [.openObject, .closeObject]
  | object ((key, value) :: members) =>
    .openObject :: .string key :: .colon ::
      (tokens value ++ (tokensOfMembers members ++ [.closeObject]))

/-- The tokens of items, each after a comma. -/
def tokensOfItems : List Json → List Token
  | [] => []
  | item :: items => .comma :: (tokens item ++ tokensOfItems items)

/-- The tokens of members, each after a comma. -/
def tokensOfMembers : List (Option (List Char) × Json) → List Token
  | [] => []
  | (key, value) :: members =>
    .comma :: .string key :: .colon :: (tokens value ++ tokensOfMembers members)

end

/-- The text of a value, without blanks. -/
def write (j : Json) : List Char := j.tokens.flatMap Token.text

end Json

end OutlineLisp
