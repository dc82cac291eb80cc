import Mathlib.Data.Nat.Notation
import OutlineLisp.Value.Primitive

/-!
# Where values come from

Lists and closures have an identity, and other values are plain. A primitive answers with something
plain, with something that one of its arguments holds, or with a new pair, and only `cons` makes
new pairs. So the values with an identity that are around after a call were around before it, or
they are that pair.

## Main definitions

* `Value.identity?`: the identity of a value, if it has one.
* `Value.Holds`: what is inside a value, at any depth.
* `Value.Unlike`: a value that is not the same as any of some others.

## Main results

* `Value.identity?_eq_of_same`: values that are the same have one identity.
* `Primitive.result_cases`: where the answer of a primitive comes from.
-/

namespace OutlineLisp

namespace Value

/-- The identity of a list or a closure. Other values have none. -/
def identity? : Value → Option ℕ
  | list i _ => some i
  | closure c => some c.identity
  | _ => none

/-- Whether a value holds another: it is the other, or it is a list and one of its items holds the
other. -/
inductive Holds : Value → Value → Prop where
  | self (v : Value) : Holds v v
  | item {i : ℕ} {items : List Value} {item u : Value} (hmem : item ∈ items) (h : Holds item u) :
    Holds (list i items) u

variable {u v w : Value}

theorem Holds.trans (h : u.Holds v) (h' : v.Holds w) : u.Holds w := by
  induction h with
  | self => exact h'
  | item hmem _ ih => exact .item hmem (ih h')

/-- Plain values hold nothing but themselves. -/
theorem Holds.eq_of_plain (h : v.Holds u) (hv : v.identity? = none) : u = v := by
  cases h with
  | self => rfl
  | item => cases hv

/-- Closures hold nothing but themselves, either. -/
theorem Holds.eq_closure {c : Closure} (h : (closure c).Holds u) : u = closure c := by
  cases h
  rfl

theorem holds_list_iff {i : ℕ} {items : List Value} :
    (list i items).Holds u ↔ u = list i items ∨ ∃ item ∈ items, item.Holds u := by
  constructor
  · rintro (_ | ⟨hmem, h⟩)
    · exact .inl rfl
    · exact .inr ⟨_, hmem, h⟩
  · rintro (rfl | ⟨item, hmem, h⟩)
    · exact .self _
    · exact .item hmem h

/-! ### The same value -/

/-- **Values that are the same** have one identity, or both are plain. -/
theorem identity?_eq_of_same (h : u.same v = true) : u.identity? = v.identity? := by
  rw [same.eq_def] at h
  split at h
  all_goals first | rfl | cases h | exact congrArg some (eq_of_beq h)

/-- Whether a value is not the same as any of some others. -/
def Unlike (P : Value → Prop) (v : Value) : Prop := ∀ u, P u → u.same v = false ∧ v.same u = false

/-- Whatever is no number is the same as itself. -/
theorem same_self (h : ∀ x, v ≠ number x) : v.same v = true := by
  cases v with
  | number x => exact absurd rfl (h x)
  | nil => rfl
  | text s => exact beq_self_eq_true s
  | bool b => exact beq_self_eq_true b
  | list i items => exact beq_self_eq_true i
  | closure c => exact beq_self_eq_true c.identity
  | primitive p => exact beq_self_eq_true p

/-! ### Operands -/

theorem headD_eq_nil_or_mem (args : List Value) : args.headD nil = nil ∨ args.headD nil ∈ args := by
  cases args with
  | nil => exact .inl rfl
  | cons v args => exact .inr List.mem_cons_self

theorem first_eq_nil_or_mem (args : List Value) : first args = nil ∨ first args ∈ args :=
  headD_eq_nil_or_mem args

theorem second_eq_nil_or_mem (args : List Value) : second args = nil ∨ second args ∈ args :=
  (headD_eq_nil_or_mem args.tail).imp_right List.mem_of_mem_tail

end Value

namespace Primitive

open Value

variable {a v : Value} {args : List Value} {fresh : ℕ}

/-- What is in a list that is an operand. -/
theorem exists_holds_of_first {i : ℕ} {items : List Value} {item : Value}
    (h : first args = .list i items) (hmem : item ∈ items) : ∃ a ∈ args, a.Holds item := by
  rcases first_eq_nil_or_mem args with hnil | harg
  · rw [hnil] at h
    cases h
  · exact ⟨_, harg, h ▸ .item hmem (.self item)⟩

theorem plain_or_holds_of_operand (h : a = .nil ∨ a ∈ args) :
    a.identity? = none ∨ ∃ b ∈ args, b.Holds a := by
  rcases h with rfl | h
  · exact .inl rfl
  · exact .inr ⟨a, h, .self a⟩

/-- **Where the answer of a primitive comes from:** it is plain, or some argument holds it, or it is
the new pair that `cons` makes. -/
theorem result_cases {p : Primitive} (h : p.result fresh args = .ok v) :
    (v.identity? = none ∨ ∃ a ∈ args, a.Holds v) ∨
      p = .cons ∧ v = .list fresh [first args, second args] := by
  cases p with
  | add =>
    simp only [result, sum.eq_def] at h
    split at h <;> cases h <;> exact .inl (.inl rfl)
  | subtract | multiply | divide | remainder =>
    simp only [result, arithmetic.eq_def] at h
    split at h <;> cases h
    exact .inl (.inl rfl)
  | lessOrEqual | greaterOrEqual | less | greater =>
    simp only [result, comparison.eq_def] at h
    split at h <;> cases h <;> exact .inl (.inl rfl)
  | notEqual | equal | logicalNot | print =>
    cases h
    exact .inl (.inl rfl)
  | logicalAnd | logicalOr =>
    cases h
    have ha := plain_or_holds_of_operand (first_eq_nil_or_mem args)
    have hb := plain_or_holds_of_operand (second_eq_nil_or_mem args)
    split <;> first | exact .inl ha | exact .inl hb
  | cons =>
    cases h
    exact .inr ⟨rfl, rfl⟩
  | car =>
    simp only [result, headOf.eq_def] at h
    split at h <;> cases h
    next i items hfirst => exact .inl (.inr (exists_holds_of_first hfirst List.mem_cons_self))
  | cdr =>
    simp only [result, tailOf.eq_def] at h
    split at h <;> cases h
    next i head items hfirst =>
      rcases headD_eq_nil_or_mem items with hnil | hmem
      · exact .inl (.inl (by rw [hnil]; rfl))
      · exact .inl (.inr (exists_holds_of_first hfirst (List.mem_cons_of_mem head hmem)))

end Primitive

end OutlineLisp
