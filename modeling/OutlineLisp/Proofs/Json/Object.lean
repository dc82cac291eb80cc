import OutlineLisp.Json.Object
import OutlineLisp.Proofs.Json.Text

/-!
# Written objects read back

What is written under keys is found under them, as long as the reader knows all of the keys and none
is written twice. Whether a value is writable, and whether every part of it means something, is seen
from what stands under the keys.

## Main results

* `Json.fields?_ofMembers`: the members of an object that is written.
* `Json.mapItems?_map`: items that are read back one by one.
-/

namespace OutlineLisp

namespace Json

/-! ### Members -/

theorem lookup_isSome_eq_false {key : String} {fields : Fields}
    (h : key ∉ fields.map Prod.fst) : (fields.lookup key).isSome = false := by
  induction fields with
  | nil => rfl
  | cons field fields ih =>
    rw [List.map_cons, List.mem_cons, not_or] at h
    rw [List.lookup_cons, beq_false_of_ne h.1]
    exact ih h.2

/-- **The members of an object are read back** where all keys are known and distinct. -/
theorem fields?_ofMembers {known : List String} {members : List (String × Json)}
    (hknown : ∀ m ∈ members, m.1 ∈ known) (hdistinct : (members.map Prod.fst).Nodup) :
    (ofMembers members).fields? known = some members := by
  show collect? known (members.map fun m => (some m.1.toList, m.2)) = some members
  induction members with
  | nil => rfl
  | cons member members ih =>
    rw [List.forall_mem_cons] at hknown
    rw [List.map_cons, List.nodup_cons] at hdistinct
    simp [collect?, ih hknown.2 hdistinct.2, hknown.1, lookup_isSome_eq_false hdistinct.1]

theorem writable_ofMembers {members : List (String × Json)} (h : ∀ m ∈ members, m.2.Writable) :
    (ofMembers members).Writable := by
  refine .object fun m hm => ?_
  obtain ⟨member, hmember, rfl⟩ := List.mem_map.1 hm
  exact h member hmember

theorem isPlain_ofMembers {round : Rounding} {members : List (String × Json)}
    (h : ∀ m ∈ members, m.2.isPlain round = true) : (ofMembers members).isPlain round = true := by
  show areMembersPlain round (members.map fun m => (some m.1.toList, m.2)) = true
  induction members with
  | nil => rfl
  | cons member members ih =>
    rw [List.forall_mem_cons] at h
    simp [areMembersPlain, h.1, ih h.2]

/-! ### Items -/

/-- Items are read back if each of them is. -/
theorem mapItems?_map {α : Type} {read : Json → Option α} {write : α → Json} {as : List α}
    (h : ∀ a ∈ as, read (write a) = some a) : mapItems? read (as.map write) = some as := by
  induction as with
  | nil => rfl
  | cons a as ih =>
    rw [List.forall_mem_cons] at h
    rw [List.map_cons, mapItems?, h.1, ih h.2]

theorem writable_array_map {α : Type} {write : α → Json} {as : List α}
    (h : ∀ a ∈ as, (write a).Writable) : (array (as.map write)).Writable := by
  refine .array fun j hj => ?_
  obtain ⟨a, ha, rfl⟩ := List.mem_map.1 hj
  exact h a ha

/-! ### Texts and numbers -/

@[simp] theorem toText?_ofString (s : String) : (ofString s).toText? = some s := by
  simp [ofString, toText?]

@[simp] theorem toTag?_ofString (s : String) : (ofString s).toTag? = some s := by
  simp [ofString, toTag?]

theorem writable_ofString (s : String) : (ofString s).Writable := .string _

theorem writable_ofNat (n : Nat) : (ofNat n).Writable := .number (isLiteral_digitsOf n)

/-- A number is writable even if it is not finite: then it is null. -/
theorem writable_ofFloat (x : Float) : (ofFloat x).Writable := by
  rw [ofFloat]
  split
  · next h => exact .number (isLiteral_write h)
  · exact .null

end Json

end OutlineLisp
