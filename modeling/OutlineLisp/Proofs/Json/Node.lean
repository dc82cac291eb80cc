import OutlineLisp.Json.Node
import OutlineLisp.Proofs.Json.Object
import OutlineLisp.Proofs.Tree.Walk

/-!
# Trees in data exchange

A tree is written with everything that it means and without the places that it came from. So it is
read back with these reset, provided that its numbers are finite: only finite numbers have a
literal, and a value that is null would be no value at all.

The provision is kept by reading. Whatever node is read has finite numbers and no places, and so
writing it and reading it again changes nothing.

## Main definitions

* `Node.unplaced`: a tree without the places that it came from.
* `Node.Finite`: trees whose numbers are finite.
* `Node.write`, `Node.read?`: the text of a tree, and the tree of a text.

## Main results

* `Node.ofJson?_toJson`: finite trees are read back without their places.
* `Node.finite_of_ofJson?`, `Node.unplaced_of_ofJson?`: what is read has no more to lose.
-/

namespace OutlineLisp

/-! ### Values -/

namespace Atom

/-- Whether a value is finite if it is a number. -/
def Finite : Atom → Prop
  | number x => x.isFinite = true
  | text _ => True

theorem writable_toJson (a : Atom) : a.toJson.Writable := by
  cases a with
  | number x => exact Json.writable_ofFloat x
  | text s => exact Json.writable_ofString s

/-- **A value is read back as what it is:** a number never as a text, nor a text as a number. -/
theorem ofJson?_toJson {a : Atom} (h : a.Finite) : ofJson? .nearest a.toJson = some (some a) := by
  cases a with
  | number x =>
    have hx : x.isFinite = true := h
    rw [toJson, Json.ofFloat, if_pos hx, ofJson?, Json.toFloat?_write hx, Option.map_some]
  | text s => simp [toJson, Json.ofString, ofJson?]

theorem finite_of_ofJson? {round : Rounding} {j : Json} {value : Option Atom}
    (h : ofJson? round j = some value) : ∀ a ∈ value, a.Finite := by
  intro a ha
  rw [ofJson?.eq_def] at h
  split at h
  · cases h
    cases ha
  · cases h
    cases ha
    exact trivial
  · obtain ⟨x, hx, rfl⟩ := Option.map_eq_some_iff.1 h
    cases ha
    exact Json.isFinite_of_toFloat? hx
  · cases h

end Atom

namespace Node

mutual

/-- A tree without the places that it came from. -/
def unplaced : Node → Node
  | ⟨kind, value, children, _, _⟩ => { kind, value, children := unplacedAll children }

/-- Trees without the places that they came from. -/
def unplacedAll : List Node → List Node
  | [] => []
  | n :: ns => unplaced n :: unplacedAll ns

end

/-- Whether all numbers in a tree are finite. -/
def Finite (n : Node) : Prop := ∀ m ∈ n.walk, ∀ a ∈ m.value, a.Finite

/-- Whether all numbers in some trees are finite. -/
def FiniteAll (ns : List Node) : Prop := ∀ m ∈ walkAll ns, ∀ a ∈ m.value, a.Finite

theorem finite_iff (n : Node) : n.Finite ↔ (∀ a ∈ n.value, a.Finite) ∧ FiniteAll n.children := by
  rw [Finite, walk_eq, List.forall_mem_cons]
  rfl

theorem finiteAll_nil : FiniteAll [] := by rintro m ⟨⟩

theorem finiteAll_cons (n : Node) (ns : List Node) :
    FiniteAll (n :: ns) ↔ n.Finite ∧ FiniteAll ns := by
  rw [FiniteAll, walkAll, List.forall_mem_append]
  rfl

theorem finiteAll_of_forall {ns : List Node} (h : ∀ n ∈ ns, n.Finite) : FiniteAll ns := by
  induction ns with
  | nil => exact finiteAll_nil
  | cons n ns ih =>
    rw [List.forall_mem_cons] at h
    exact (finiteAll_cons n ns).2 ⟨h.1, ih h.2⟩

/-! ### Writing -/

theorem toJson_eq (n : Node) :
    n.toJson = .ofMembers
      (("type", .ofString n.kind.tag) ::
        ((n.value.map fun a => ("value", a.toJson)).toList
          ++ [("children", .array (toJsonItems n.children))])) := by
  obtain ⟨kind, value, children, indent, span⟩ := n
  cases value <;> rw [toJson] <;> rfl

/-- Whatever the numbers in some trees, what is written for them is well formed. -/
theorem writable_toJsonItems (ns : List Node) : ∀ j ∈ toJsonItems ns, j.Writable := by
  match ns with
  | [] => rintro j ⟨⟩
  | ⟨kind, value, children, indent, span⟩ :: ns =>
    have hchildren : (Json.array (toJsonItems children)).Writable :=
      .array (writable_toJsonItems children)
    rw [toJsonItems, List.forall_mem_cons]
    refine ⟨?_, writable_toJsonItems ns⟩
    rw [toJson_eq]
    refine Json.writable_ofMembers ?_
    cases value with
    | none => simp [Json.writable_ofString, hchildren]
    | some a => simp [Json.writable_ofString, a.writable_toJson, hchildren]

theorem writable_toJson (n : Node) : n.toJson.Writable :=
  writable_toJsonItems [n] _ List.mem_cons_self

/-! ### Reading what was written -/

/-- A node is read back if its children are. -/
theorem ofJson?_toJson_of_children {n : Node} {children : List Node}
    (hvalue : ∀ a ∈ n.value, a.Finite)
    (hchildren : nodesOf? .nearest (toJsonItems n.children) = some children) :
    ofJson? .nearest n.toJson = some { kind := n.kind, value := n.value, children } := by
  obtain ⟨kind, value, below, indent, span⟩ := n
  have htype := NodeKind.ofTag?_tag kind
  cases value with
  | none =>
    simp [toJson_eq, Json.ofMembers, ofJson?, partsOf?, childrenOf?, hchildren, htype,
      Parts.toNode?]
  | some a =>
    have ha := Atom.ofJson?_toJson (hvalue a rfl)
    simp [toJson_eq, Json.ofMembers, ofJson?, partsOf?, childrenOf?, hchildren, htype, ha,
      Parts.toNode?]

theorem nodesOf?_toJsonItems (ns : List Node) (h : FiniteAll ns) :
    nodesOf? .nearest (toJsonItems ns) = some (unplacedAll ns) := by
  match ns with
  | [] => rfl
  | ⟨kind, value, children, indent, span⟩ :: ns =>
    rw [finiteAll_cons, finite_iff] at h
    obtain ⟨⟨hvalue, hchildren⟩, hns⟩ := h
    rw [toJsonItems, nodesOf?, nodesOf?_toJsonItems ns hns,
      ofJson?_toJson_of_children hvalue (nodesOf?_toJsonItems children hchildren)]
    rfl

/-- **Finite trees are read back without their places.** -/
theorem ofJson?_toJson {n : Node} (h : n.Finite) :
    ofJson? .nearest n.toJson = some n.unplaced := by
  have hns := nodesOf?_toJsonItems [n] ((finiteAll_cons n []).2 ⟨h, finiteAll_nil⟩)
  rw [toJsonItems, nodesOf?] at hns
  split at hns
  · next m ms hm hms =>
    rw [hm]
    exact congrArg some (List.cons.inj (Option.some.inj hns)).1
  · cases hns

/-- The text of a tree. -/
def write (n : Node) : String := String.ofList n.toJson.write

/-- The tree that a text writes, with the nearest number for every numeral and no limit on the
levels of arrays and objects. -/
def read? (text : String) : Option Node := (Json.ofText? text.toList).bind (ofJson? .nearest)

theorem read?_write_of_finite {n : Node} (h : n.Finite) : read? n.write = some n.unplaced := by
  rw [read?, write, String.toList_ofList, Json.ofText?_write n.writable_toJson, Option.bind_some,
    ofJson?_toJson h]

/-! ### What is read -/

/-- Trees that reading and writing leave alone: their numbers are finite, and they came from
nowhere. -/
structure ExchangedAll (ns : List Node) : Prop where
  finite : FiniteAll ns
  unplaced : unplacedAll ns = ns

/-- Whether the parts of a node that have been read are as all that is read. -/
structure Parts.Exchanged (p : Parts) : Prop where
  value : ∀ value ∈ p.value, ∀ a ∈ value, a.Finite
  children : ∀ children ∈ p.children, ExchangedAll children

theorem exchangedAll_nil : ExchangedAll [] := ⟨finiteAll_nil, rfl⟩

theorem Parts.Exchanged.toNode? {p : Parts} (h : p.Exchanged) {n : Node} (hn : p.toNode? = some n) :
    ExchangedAll [n] := by
  obtain ⟨kind, -, rfl⟩ := Option.map_eq_some_iff.1 hn
  obtain ⟨hvalue, hchildren⟩ := h
  have hbelow : ExchangedAll (p.children.getD []) := by
    cases hp : p.children with
    | none => exact exchangedAll_nil
    | some children => exact hchildren children hp
  refine ⟨(finiteAll_cons _ _).2
    ⟨(finite_iff _).2 ⟨fun a ha => ?_, hbelow.finite⟩, finiteAll_nil⟩, ?_⟩
  · cases hp : p.value with
    | none =>
      simp only [hp, Option.getD_none] at ha
      cases ha
    | some value =>
      simp only [hp, Option.getD_some] at ha
      exact hvalue value hp a ha
  · simp only [unplacedAll, unplaced, hbelow.unplaced]

mutual

theorem exchanged_of_ofJson? {round : Rounding} (j : Json) {n : Node}
    (h : ofJson? round j = some n) : ExchangedAll [n] := by
  match j with
  | .object members =>
    rw [ofJson?] at h
    split at h
    · next parts hparts => exact (exchanged_of_partsOf? members hparts).toNode? h
    · cases h
  | .null | .bool _ | .number _ | .string _ | .array _ => cases h

theorem exchanged_of_partsOf? {round : Rounding} (members : List (Option (List Char) × Json))
    {parts : Parts} (h : partsOf? round members = some parts) : parts.Exchanged := by
  match members with
  | [] =>
    cases h
    exact ⟨by rintro _ ⟨⟩, by rintro _ ⟨⟩⟩
  | (none, j) :: members => simp [partsOf?] at h
  | (some key, j) :: members =>
    cases hparts : partsOf? round members with
    | none => simp [partsOf?, hparts] at h
    | some rest =>
      have hrest := exchanged_of_partsOf? members hparts
      simp only [partsOf?, hparts] at h
      split at h
      · split at h
        · cases h
          exact ⟨hrest.value, hrest.children⟩
        · cases h
      split at h
      · split at h
        · next value hvalue =>
          cases h
          refine ⟨fun v hv => ?_, hrest.children⟩
          cases hv
          exact Atom.finite_of_ofJson? hvalue
        · cases h
      split at h
      · split at h
        · next children hchildren =>
          cases h
          refine ⟨hrest.value, fun ns hns => ?_⟩
          cases hns
          exact exchanged_of_childrenOf? j hchildren
        · cases h
      · cases h
        exact hrest

theorem exchanged_of_childrenOf? {round : Rounding} (j : Json) {ns : List Node}
    (h : childrenOf? round j = some ns) : ExchangedAll ns := by
  match j with
  | .array items => exact exchanged_of_nodesOf? items h
  | .null | .bool _ | .number _ | .string _ | .object _ => cases h

theorem exchanged_of_nodesOf? {round : Rounding} (items : List Json) {ns : List Node}
    (h : nodesOf? round items = some ns) : ExchangedAll ns := by
  match items with
  | [] =>
    cases h
    exact exchangedAll_nil
  | item :: items =>
    rw [nodesOf?] at h
    split at h
    · next n ns hn hns =>
      cases h
      have hfirst := exchanged_of_ofJson? item hn
      have hrest := exchanged_of_nodesOf? items hns
      have hn := ((finiteAll_cons n []).1 hfirst.finite).1
      refine ⟨(finiteAll_cons n ns).2 ⟨hn, hrest.finite⟩, ?_⟩
      rw [unplacedAll, hrest.unplaced, (List.cons.inj hfirst.unplaced).1]
    · cases h

end

/-- What is read has finite numbers. -/
theorem finite_of_ofJson? {round : Rounding} {j : Json} {n : Node}
    (h : ofJson? round j = some n) : n.Finite :=
  ((finiteAll_cons n []).1 (exchanged_of_ofJson? j h).finite).1

/-- What is read came from nowhere. -/
theorem unplaced_of_ofJson? {round : Rounding} {j : Json} {n : Node}
    (h : ofJson? round j = some n) : n.unplaced = n :=
  (List.cons.inj (exchanged_of_ofJson? j h).unplaced).1

end Node

end OutlineLisp
