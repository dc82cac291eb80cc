import OutlineLisp.Proofs.Number.Comparison
import OutlineLisp.Proofs.Text.Order

/-!
# How values compare

Two texts compare, and so do two numbers unless one of them is not a number. All comparisons ask for
one thing, how their operands compare; so what they have to do with each other is a matter of this
order alone. It is the same order from either side, it is transitive, and two values have one place
in it if and only if they are the same.

## Main definitions

* `Value.Comparable`: values that compare.
* `Value.order?`: how two values compare, if they do.
* `Primitive.holds`: what is asked of it.

## Main results

* `Value.Comparable.exists_order`: the order of two values, from either side.
* `Value.order?_self_ne_lt`, `Value.order?_trans`: no value comes before itself, and what is before
  what is before a value is before it.
* `Primitive.comparison_of_order`, `Primitive.comparison_mismatched`: comparisons of operands.
* `Primitive.result_eq_comparison`, `Primitive.result_eq_holds`: four comparisons and two
  equalities.
* `Primitive.existsUnique_holds`: one of three things is true of any order.
-/

namespace OutlineLisp

namespace Value

variable {a b c : Value}

/-- Whether two values compare. Two texts do, and so do two numbers, unless one is not a number. -/
inductive Comparable : Value → Value → Prop
  | numbers {x y : Float} (hx : x.isNaN = false) (hy : y.isNaN = false) :
      Comparable (number x) (number y)
  | texts (s t : String) : Comparable (text s) (text t)

/-- How two values compare, if they do. -/
def order? : Value → Value → Option Ordering
  | number x, number y => compareNumbers x y
  | text s, text t => some (compareTexts s t)
  | _, _ => none

/-! ### The orders of numbers and of texts -/

/-- Numbers compare as they stand in the order. -/
theorem compareNumbers_eq {x y : Float} (hx : x.isNaN = false) (hy : y.isNaN = false) :
    compareNumbers x y = some (compare (Binary64.signed x) (Binary64.signed y)) := by
  simp only [compareNumbers, Binary64.lt_iff, Binary64.beq_iff, hx, hy, true_and]
  rcases lt_trichotomy (Binary64.signed x) (Binary64.signed y) with h | h | h
  · rw [if_pos h, compare_lt_iff_lt.2 h]
  · rw [if_neg h.not_lt, if_neg h.not_gt, if_pos h, compare_eq_iff_eq.2 h]
  · rw [if_neg h.not_gt, if_pos h, compare_gt_iff_gt.2 h]

theorem compareNumbers_of_isNaN {x y : Float} (h : x.isNaN = true ∨ y.isNaN = true) :
    compareNumbers x y = none := by
  rcases h with h | h <;>
    simp only [compareNumbers, Binary64.lt_iff, Binary64.beq_iff, h, Bool.true_eq_false, false_and,
      and_false, if_false]

theorem compareNumbers_eq_lt_iff {x y : Float} : compareNumbers x y = some .lt ↔ x < y := by
  rw [compareNumbers]
  split_ifs with h <;> simp [h]

/-- Texts compare as they do in their linear order. -/
theorem compareTexts_eq (s t : String) : compareTexts s t = compare s t := rfl

/-! ### The order of values -/

/-- **Values that compare** do so from either side, and they are the same if and only if none of
them comes before the other. -/
theorem Comparable.exists_order (h : Comparable a b) :
    ∃ o : Ordering, a.order? b = some o ∧ b.order? a = some o.swap ∧ a.same b = (o == .eq) := by
  cases h with
  | @numbers x y hx hy =>
    refine ⟨_, compareNumbers_eq hx hy, ?_, ?_⟩
    · rw [Int.compare_swap]
      exact compareNumbers_eq hy hx
    · rw [Bool.eq_iff_iff, beq_iff_eq, compare_eq_iff_eq]
      exact Binary64.beq_iff.trans (by simp only [hx, hy, true_and])
  | texts s t =>
    refine ⟨_, congrArg some (compareTexts_eq s t), ?_, ?_⟩
    · rw [← Std.OrientedOrd.eq_swap]
      exact congrArg some (compareTexts_eq t s)
    · rw [Bool.eq_iff_iff, beq_iff_eq, compare_eq_iff_eq]
      exact beq_iff_eq

/-- No value comes before itself. -/
theorem order?_self_ne_lt (a : Value) : a.order? a ≠ some .lt := by
  cases a with
  | number x =>
    rw [order?, Ne, compareNumbers_eq_lt_iff, Binary64.lt_iff]
    exact fun h => lt_irrefl _ h.2.2
  | text s =>
    rw [order?, compareTexts_eq, Ne, Option.some_inj, compare_lt_iff_lt]
    exact lt_irrefl s
  | _ => exact nofun

theorem order?_trans (h : a.order? b = some .lt) (h' : b.order? c = some .lt) :
    a.order? c = some .lt := by
  cases a with
  | number x =>
    cases b with
    | number y =>
      cases c with
      | number z =>
        rw [order?, compareNumbers_eq_lt_iff, Binary64.lt_iff] at h h' ⊢
        exact ⟨h.1, h'.2.1, h.2.2.trans h'.2.2⟩
      | _ => cases h'
    | _ => cases h
  | text s =>
    cases b with
    | text t =>
      cases c with
      | text u =>
        rw [order?, compareTexts_eq, Option.some_inj, compare_lt_iff_lt] at h h' ⊢
        exact h.trans h'
      | _ => cases h'
    | _ => cases h
  | _ => cases h

end Value

namespace Primitive

variable {p : Primitive} {asked : Option Ordering → Bool} {a b : Value}

/-- **Comparisons ask** how their operands compare. -/
theorem comparison_of_order {o : Ordering} (h : a.order? b = some o) :
    comparison p asked a b = .ok (.bool (asked (some o))) := by
  cases a with
  | number x =>
    cases b with
    | number y => rw [comparison, ← h, Value.order?]
    | _ => cases h
  | text s =>
    cases b with
    | text t => rw [comparison, ← h, Value.order?]
    | _ => cases h
  | _ => cases h

/-- What is affirmed of how operands compare is affirmed of operands that do. -/
theorem comparison_eq_true_iff (hnone : asked none = false) :
    comparison p asked a b = .ok (.bool true) ↔ asked (a.order? b) = true := by
  cases a <;> cases b <;> simp [comparison, Value.order?, hnone]

/-- What is neither two numbers nor two texts is not compared. -/
theorem comparison_mismatched (hnumbers : ¬(a.type = .number ∧ b.type = .number))
    (htexts : ¬(a.type = .text ∧ b.type = .text)) :
    comparison p asked a b = .error (mismatched p a b) := by
  cases a with
  | number x =>
    cases b with
    | number y => exact absurd ⟨rfl, rfl⟩ hnumbers
    | _ => rfl
  | text s =>
    cases b with
    | text t => exact absurd ⟨rfl, rfl⟩ htexts
    | _ => rfl
  | _ => rfl

/-! ### What is asked of the order -/

/-- The primitives that compare their operands. -/
def comparisons : List Primitive := [less, lessOrEqual, greaterOrEqual, greater]

/-- The primitives that ask whether their operands are the same. -/
def equalities : List Primitive := [equal, notEqual]

/-- Whether something is true of operands that compare in some way, or not at all. -/
def holds : Primitive → Option Ordering → Bool
  | less, o => o == some .lt
  | lessOrEqual, o => o == some .lt || o == some .eq
  | greaterOrEqual, o => o == some .gt || o == some .eq
  | greater, o => o == some .gt
  | equal, o => o == some .eq
  | notEqual, o => o != some .eq
  | _, _ => false

/-- Of operands that compare, one of three is true. -/
theorem existsUnique_holds (o : Ordering) :
    ∃! p, p ∈ [less, equal, greater] ∧ p.holds (some o) = true := by
  have hexists : ∃ p ∈ [less, equal, greater], p.holds (some o) = true := by
    cases o <;> decide
  have hunique : ∀ p ∈ [less, equal, greater], ∀ q ∈ [less, equal, greater],
      p.holds (some o) = true → q.holds (some o) = true → q = p := by
    cases o <;> decide
  obtain ⟨p, hp, hholds⟩ := hexists
  exact ⟨p, ⟨hp, hholds⟩, fun q hq => hunique p hp q hq.1 hholds hq.2⟩

theorem result_eq_comparison (hp : p ∈ comparisons) (fresh : ℕ) (a b : Value) :
    p.result fresh [a, b] = comparison p p.holds a b := by
  simp only [comparisons, List.mem_cons, List.not_mem_nil, or_false] at hp
  rcases hp with rfl | rfl | rfl | rfl <;> rfl

/-- **Two equalities** are comparisons wherever they agree with the order. -/
theorem result_eq_holds (hp : p ∈ equalities) {o : Option Ordering}
    (h : a.same b = (o == some .eq)) (fresh : ℕ) :
    p.result fresh [a, b] = .ok (.bool (p.holds o)) := by
  simp only [equalities, List.mem_cons, List.not_mem_nil, or_false] at hp
  have hequal : equal.result fresh [a, b] = .ok (.bool (a.same b)) := rfl
  have hnotEqual : notEqual.result fresh [a, b] = .ok (.bool (!a.same b)) := rfl
  rcases hp with rfl | rfl
  · rw [hequal, h, holds]
  · rw [hnotEqual, h, holds, bne]

end Primitive

end OutlineLisp
