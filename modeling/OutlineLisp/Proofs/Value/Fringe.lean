import OutlineLisp.Proofs.Value.Equality

/-!
# The fringe of a value

Lists show no brackets: the text of a list is that of its items with commas between them, and an
item that is a list is shown in the same way. So the text tells nothing of how deep a leaf stands in
the list. It is made of the texts of the leaves alone, from left to right, with one comma between
any two neighbours, whatever the shape of the lists.

A list without items is the exception. It has an empty text, and so it takes a place between commas,
but it has no leaf that would stand there. Nil has an empty text, too, but is a leaf itself.

## Main definitions

* `Value.fringe`: the leaves of a value, from left to right.
* `Value.Filled`: values in which no list is empty.

## Main results

* `Value.mem_fringe_iff`: the leaves are what a value holds besides lists.
* `Value.display_list`: the text of a list.
* `Value.display_eq_of_filled`: the text of a value is made of those of its leaves.
-/

namespace OutlineLisp

/-- **Joining in groups** is joining all at once, if no group is empty. -/
theorem Text.intercalate_flatMap {α : Type} {f : α → List String} (sep : String) {xs : List α}
    (h : ∀ x ∈ xs, f x ≠ []) :
    sep.intercalate (xs.flatMap f) = sep.intercalate (xs.map fun x => sep.intercalate (f x)) := by
  induction xs with
  | nil => rfl
  | cons x xs ih =>
    obtain ⟨hx, hxs⟩ := List.forall_mem_cons.1 h
    cases xs with
    | nil =>
      rw [List.flatMap_singleton, List.map_singleton, String.intercalate_singleton]
    | cons y ys =>
      have hrest : (y :: ys).flatMap f ≠ [] :=
        fun hnil => hxs y List.mem_cons_self (List.flatMap_eq_nil_iff.1 hnil y List.mem_cons_self)
      rw [List.flatMap_cons, String.intercalate_append_of_ne_nil hx hrest, ih hxs]
      simp only [List.map_cons, String.intercalate_cons_cons]

namespace Value

variable {u v : Value} {i : ℕ} {items : List Value}

/-! ### Leaves -/

mutual

/-- The leaves of a value, which are the values besides lists that are in it, from left to right. -/
def fringe : Value → List Value
  | list _ items => fringeItems items
  | v => [v]

/-- The leaves of items, those of one after those of another. -/
def fringeItems : List Value → List Value
  | [] => []
  | item :: items => fringe item ++ fringeItems items

end

theorem fringeItems_eq (items : List Value) : fringeItems items = items.flatMap fringe := by
  induction items with
  | nil => rfl
  | cons item items ih => rw [fringeItems, ih, List.flatMap_cons]

theorem fringe_list (i : ℕ) (items : List Value) :
    (list i items).fringe = items.flatMap fringe := by
  rw [fringe, fringeItems_eq]

theorem fringe_pair (i : ℕ) (a b : Value) : (list i [a, b]).fringe = a.fringe ++ b.fringe := by
  rw [fringe_list, List.flatMap_cons, List.flatMap_singleton]

theorem fringe_eq_singleton (h : v.type ≠ .pair) : v.fringe = [v] := by
  cases v with
  | list i items => exact absurd rfl h
  | _ => rfl

/-- **The leaves of a value** are what it holds besides lists. -/
theorem mem_fringe_iff : u ∈ v.fringe ↔ v.Holds u ∧ u.type ≠ .pair := by
  induction v using induction_items with
  | other v hv =>
    rw [fringe_eq_singleton hv, List.mem_singleton]
    constructor
    · rintro rfl
      exact ⟨.self u, hv⟩
    · rintro ⟨_ | _, -⟩
      · rfl
      · exact absurd rfl hv
  | list i items ih =>
    rw [fringe_list, List.mem_flatMap, holds_list_iff]
    constructor
    · rintro ⟨item, hmem, hu⟩
      obtain ⟨hholds, htype⟩ := (ih item hmem).1 hu
      exact ⟨.inr ⟨item, hmem, hholds⟩, htype⟩
    · rintro ⟨rfl | ⟨item, hmem, hholds⟩, htype⟩
      · exact absurd rfl htype
      · exact ⟨item, hmem, (ih item hmem).2 ⟨hholds, htype⟩⟩

/-! ### Values without empty lists -/

/-- Whether no list in a value is empty, at any depth. -/
def Filled (v : Value) : Prop := ∀ i, ¬v.Holds (list i [])

theorem filled_list_iff : (list i items).Filled ↔ items ≠ [] ∧ ∀ item ∈ items, item.Filled := by
  constructor
  · intro h
    refine ⟨?_, fun item hmem j hholds => h j (.item hmem hholds)⟩
    rintro rfl
    exact h i (.self _)
  · rintro ⟨hne, hitems⟩ j hholds
    rcases holds_list_iff.1 hholds with heq | ⟨item, hmem, hitem⟩
    · cases heq
      exact hne rfl
    · exact hitems item hmem j hitem

theorem fringe_ne_nil (h : v.Filled) : v.fringe ≠ [] := by
  induction v using induction_items with
  | other v hv =>
    rw [fringe_eq_singleton hv]
    exact List.cons_ne_nil _ _
  | list i items ih =>
    obtain ⟨hne, hitems⟩ := filled_list_iff.1 h
    obtain ⟨item, hmem⟩ := List.exists_mem_of_ne_nil items hne
    rw [fringe_list]
    exact fun hnil => ih item hmem (hitems item hmem) (List.flatMap_eq_nil_iff.1 hnil item hmem)

/-! ### Texts -/

theorem displayItems_eq (items : List Value) :
    displayItems items = ",".intercalate (items.map display) := by
  induction items with
  | nil => rfl
  | cons item items ih =>
    cases items with
    | nil => rw [displayItems, List.map_cons, List.map_nil, String.intercalate_singleton]
    | cons next rest =>
      rw [displayItems, ih]
      · simp only [List.map_cons, String.intercalate_cons_cons]
      · exact List.cons_ne_nil _ _

/-- The text of a list is that of its items with commas between them. -/
theorem display_list (i : ℕ) (items : List Value) :
    (list i items).display = ",".intercalate (items.map display) := by
  rw [display, displayItems_eq]

/-- **The text of a value** is that of its leaves with commas between them. -/
theorem display_eq_of_filled (h : v.Filled) :
    v.display = ",".intercalate (v.fringe.map display) := by
  induction v using induction_items with
  | other v hv =>
    rw [fringe_eq_singleton hv, List.map_cons, List.map_nil, String.intercalate_singleton]
  | list i items ih =>
    obtain ⟨-, hitems⟩ := filled_list_iff.1 h
    have hgroups : ∀ item ∈ items, item.fringe.map display ≠ [] := fun item hmem hnil =>
      fringe_ne_nil (hitems item hmem) (List.map_eq_nil_iff.1 hnil)
    have htexts : items.map display
        = items.map fun item => ",".intercalate (item.fringe.map display) :=
      List.map_congr_left fun item hmem => ih item hmem (hitems item hmem)
    calc
      (list i items).display = ",".intercalate (items.map display) := display_list i items
      _ = ",".intercalate (items.flatMap fun item => item.fringe.map display) := by
        rw [htexts, Text.intercalate_flatMap "," hgroups]
      _ = ",".intercalate ((list i items).fringe.map display) := by
        rw [fringe_list, List.map_flatMap]

/-- An empty list takes a place in the text, but has no leaf. -/
example : (list 0 [nil, list 1 []]).display = "," ∧ (list 0 [nil, list 1 []]).fringe = [nil] :=
  ⟨rfl, rfl⟩

end Value

end OutlineLisp
