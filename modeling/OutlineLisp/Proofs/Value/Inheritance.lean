import OutlineLisp.Value.Primitive

/-!
# What values inherit

A primitive makes its result of plain data, of its arguments and of their items, and of at most one
new pair. So a property that plain data has, and that goes from lists to their items and from two
values to a new pair of them, goes from the arguments of a primitive to its result. What invariants
of the machine say about values is of this kind.

## Main definitions

* `Value.Inherited`: properties of this kind.

## Main results

* `Primitive.result_inherits`: what a primitive answers has the properties of its arguments.
* `Primitive.of_result_eq_error`: otherwise it finds fault with their types.
-/

namespace OutlineLisp

/-- A property of values that plain data has, that items have with their list, and that a new pair
has with its two items. -/
structure Value.Inherited (fresh : Nat) (P : Value → Prop) : Prop where
  number : ∀ x, P (.number x)
  text : ∀ s, P (.text s)
  bool : ∀ b, P (.bool b)
  nil : P .nil
  item : ∀ {identity items}, P (.list identity items) → ∀ item ∈ items, P item
  pair : ∀ {a b}, P a → P b → P (.list fresh [a, b])

variable {fresh : Nat} {P : Value → Prop}

namespace Value.Inherited

theorem headD (hP : Inherited fresh P) {args : List Value} (h : ∀ v ∈ args, P v) :
    P (args.headD .nil) := by
  cases args with
  | nil => exact hP.nil
  | cons v args => exact h v List.mem_cons_self

theorem first (hP : Inherited fresh P) {args : List Value} (h : ∀ v ∈ args, P v) :
    P (Value.first args) := hP.headD h

theorem second (hP : Inherited fresh P) {args : List Value} (h : ∀ v ∈ args, P v) :
    P (Value.second args) := hP.headD fun v hv => h v (List.mem_of_mem_tail hv)

end Value.Inherited

namespace Primitive

open Value (Inherited)

variable {a b v : Value}

theorem sum_inherits (hP : Inherited fresh P) (h : sum a b = .ok v) : P v := by
  rw [sum.eq_def] at h
  split at h <;> cases h
  · exact hP.number _
  · exact hP.text _
  · exact hP.text _

theorem arithmetic_inherits (hP : Inherited fresh P) {p : Primitive} {f : Float → Float → Float}
    (h : arithmetic p f a b = .ok v) : P v := by
  rw [arithmetic.eq_def] at h
  split at h <;> cases h
  exact hP.number _

theorem comparison_inherits (hP : Inherited fresh P) {p : Primitive}
    {holds : Option Ordering → Bool} (h : comparison p holds a b = .ok v) : P v := by
  rw [comparison.eq_def] at h
  split at h <;> cases h
  · exact hP.bool _
  · exact hP.bool _

theorem headOf_inherits (hP : Inherited fresh P) (ha : P a) (h : headOf a = .ok v) : P v := by
  rw [headOf.eq_def] at h
  split at h <;> cases h
  exact hP.item ha _ List.mem_cons_self

theorem tailOf_inherits (hP : Inherited fresh P) (ha : P a) (h : tailOf a = .ok v) : P v := by
  rw [tailOf.eq_def] at h
  split at h <;> cases h
  exact hP.headD fun item hitem => hP.item ha item (List.mem_cons_of_mem _ hitem)

/-- **What a primitive answers** has the properties that values inherit from its arguments. -/
theorem result_inherits (hP : Inherited fresh P) {p : Primitive} {args : List Value}
    (h : ∀ v ∈ args, P v) (hv : p.result fresh args = .ok v) : P v := by
  have ha : P (Value.first args) := hP.first h
  have hb : P (Value.second args) := hP.second h
  cases p with
  | add => exact sum_inherits hP hv
  | subtract | multiply | divide | remainder => exact arithmetic_inherits hP hv
  | lessOrEqual | greaterOrEqual | less | greater =>
    simp only [result] at hv
    exact comparison_inherits hP hv
  | notEqual | equal | logicalNot =>
    cases hv
    exact hP.bool _
  | logicalAnd | logicalOr =>
    cases hv
    split <;> assumption
  | cons =>
    cases hv
    exact hP.pair ha hb
  | car => exact headOf_inherits hP ha hv
  | cdr => exact tailOf_inherits hP ha hv
  | print =>
    cases hv
    exact hP.text _

/-- The faults of a primitive are about the types of its operands. -/
theorem of_result_eq_error {p : Primitive} {fresh : Nat} {args : List Value} {fault : Fault}
    (h : p.result fresh args = .error fault) :
    fault = mismatched p (Value.first args) (Value.second args) ∨ fault = .notPair p := by
  cases p with
  | add =>
    simp only [result, sum.eq_def] at h
    split at h <;> cases h
    exact .inl rfl
  | subtract | multiply | divide | remainder =>
    simp only [result, arithmetic.eq_def] at h
    split at h <;> cases h
    exact .inl rfl
  | lessOrEqual | greaterOrEqual | less | greater =>
    simp only [result, comparison.eq_def] at h
    split at h <;> cases h
    exact .inl rfl
  | car | cdr =>
    simp only [result, headOf.eq_def, tailOf.eq_def] at h
    split at h <;> cases h
    exact .inr rfl
  | notEqual | equal | logicalAnd | logicalOr | logicalNot | cons | print => cases h

end Primitive

end OutlineLisp
