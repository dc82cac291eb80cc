/-!
# Runs at the start of a list

A scanner takes the run of elements at the start of a list that have some property. Where such a run
is put in front of a list that does not go on with it, just the run is taken.

## Main definitions

* `Stops`: a list does not start with an element that has a property.

## Main results

* `takeWhile_append_eq`, `dropWhile_append_eq`: a run in front of a list is taken, and dropped.
-/

namespace OutlineLisp

variable {α : Type} {p : α → Bool} {xs ys : List α}

/-- A list does not start with an element that has a property. -/
def Stops (p : α → Bool) (xs : List α) : Prop := ∀ x ∈ xs.head?, p x = false

theorem stops_cons {x : α} (h : p x = false) (xs : List α) : Stops p (x :: xs) := by
  intro y hy
  obtain rfl := Option.some.inj hy
  exact h

theorem Stops.imp {q : α → Bool} (h : Stops p xs) (hpq : ∀ x, p x = false → q x = false) :
    Stops q xs :=
  fun x hx => hpq x (h x hx)

theorem stops_dropWhile (p : α → Bool) (xs : List α) : Stops p (xs.dropWhile p) := by
  intro x hx
  have h := List.head?_dropWhile_not p xs
  rw [hx] at h
  exact h

theorem takeWhile_of_stops (h : Stops p xs) : xs.takeWhile p = [] := by
  cases xs with
  | nil => rfl
  | cons x xs =>
    have hx : ¬p x = true := by rw [h x rfl]; exact Bool.false_ne_true
    rw [List.takeWhile_cons_of_neg hx]

theorem dropWhile_of_stops (h : Stops p xs) : xs.dropWhile p = xs := by
  cases xs with
  | nil => rfl
  | cons x xs =>
    have hx : ¬p x = true := by rw [h x rfl]; exact Bool.false_ne_true
    rw [List.dropWhile_cons_of_neg hx]

theorem takeWhile_append_eq (hxs : ∀ x ∈ xs, p x = true) (hys : Stops p ys) :
    (xs ++ ys).takeWhile p = xs := by
  rw [List.takeWhile_append_of_pos hxs, takeWhile_of_stops hys, List.append_nil]

theorem dropWhile_append_eq (hxs : ∀ x ∈ xs, p x = true) (hys : Stops p ys) :
    (xs ++ ys).dropWhile p = ys := by
  rw [List.dropWhile_append_of_pos hxs, dropWhile_of_stops hys]

end OutlineLisp
