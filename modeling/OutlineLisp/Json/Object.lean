import OutlineLisp.Json.Number

/-!
# Reading objects

An object is read through the keys that its reader knows. A known key may stand once only; other
keys are passed over with their values, and may be repeated. A key that is no text is refused.

## Main definitions

* `Json.fields?`: the values under known keys.
* `Json.isPlain`: whether every part of a value means something.
-/

namespace OutlineLisp

namespace Json

/-- The values under known keys, in the order of those keys. -/
abbrev Fields : Type := List (String × Json)

/-- The members of an object under known keys. A known key must not be repeated. -/
def collect? (known : List String) : List (Option (List Char) × Json) → Option Fields
  | [] => some []
  | (none, _) :: _ => none
  | (some key, value) :: members =>
    match collect? known members with
    | none => none
    | some fields =>
      let key := String.ofList key
      if known.contains key then
        if (fields.lookup key).isSome then none else some ((key, value) :: fields)
      else some fields

/-- The members of an object under known keys. -/
def fields? (known : List String) : Json → Option Fields
  | object members => collect? known members
  | _ => none

mutual

/-- Whether every part of a value means something: no text has an unpaired surrogate, and no number
is beyond the finite range. -/
def isPlain (round : Rounding) : Json → Bool
  | string s => s.isSome
  | number literal => (toFloat? round (number literal)).isSome
  | array items => areItemsPlain round items
  | object members => areMembersPlain round members
  | _ => true

/-- Whether every part of some items means something. -/
def areItemsPlain (round : Rounding) : List Json → Bool
  | [] => true
  | item :: items => isPlain round item && areItemsPlain round items

/-- Whether every part of some members means something. -/
def areMembersPlain (round : Rounding) : List (Option (List Char) × Json) → Bool
  | [] => true
  | (key, value) :: members => key.isSome && isPlain round value && areMembersPlain round members

end

/-- The text of a JSON text. -/
def toText? : Json → Option String
  | string (some s) => some (String.ofList s)
  | _ => none

/-- The truth value of a JSON truth value. -/
def toBool? : Json → Option Bool
  | bool b => some b
  | _ => none

/-- The items of an array. -/
def toItems? : Json → Option (List Json)
  | array items => some items
  | _ => none

/-- The name of an alternative: a text, or the only key of an object whose value is null. -/
def toTag? : Json → Option String
  | string (some s) => some (String.ofList s)
  | object [(some s, null)] => some (String.ofList s)
  | _ => none

/-- What a function makes of each item, if it makes something of all of them. -/
def mapItems? {α : Type} (f : Json → Option α) : List Json → Option (List α)
  | [] => some []
  | item :: items =>
    match f item, mapItems? f items with
    | some a, some as => some (a :: as)
    | _, _ => none

end Json

end OutlineLisp
