import OutlineLisp.Proofs.Execution.History
import OutlineLisp.Proofs.Value.Equality

/-!
# Equalities over a history

After any history of uses of an evaluator, lists with one identity have the same items. So the two
equalities fit together on all values that can be reached then, however deep they are nested.

## Main definitions

* `Value.EqualitiesFit`: what the two equalities have to do with each other.

## Main results

* `Value.equalitiesFit`: they fit together on the values of one state.
* `Evaluator.History.coherent`: values that can be reached are those of one state.
-/

namespace OutlineLisp

namespace Value

/-- What the two equalities have to do with each other. Only the last field is about values of one
state. -/
structure EqualitiesFit (P : Value → Prop) : Prop where
  /-- Being the same is symmetric. -/
  same_symm : ∀ a b : Value, a.same b = b.same a
  /-- Being the same is transitive. -/
  same_trans : ∀ a b c : Value, a.same b = true → b.same c = true → a.same c = true
  /-- Being alike is symmetric. -/
  alike_symm : ∀ a b : Value, a.alike b = b.alike a
  /-- Being alike is transitive. -/
  alike_trans : ∀ a b c : Value, a.alike b = true → b.alike c = true → a.alike c = true
  /-- Only what is not a number is not the same as itself. -/
  same_self : ∀ v : Value, v.same v = false ↔ ∃ x, v = number x ∧ x.isNaN = true
  /-- Only what holds it at some depth is not alike to itself. -/
  alike_self : ∀ v : Value, v.alike v = false ↔ v.HoldsNaN
  /-- The two agree on values that are not both lists. -/
  agree : ∀ a b : Value, ¬(a.type = .pair ∧ b.type = .pair) → a.same b = a.alike b
  /-- What is the same is alike, unless it holds what is not a number. -/
  alike_of_same : ∀ a b, P a → P b → a.same b = true → ¬a.HoldsNaN → a.alike b = true

/-- **The two equalities fit together** on values of one state. -/
theorem equalitiesFit {P : Value → Prop} (hP : Coherent P) : EqualitiesFit P where
  same_symm := same_comm
  same_trans _ _ _ := Value.same_trans
  alike_symm := alike_comm
  alike_trans _ _ _ := Value.alike_trans
  same_self := same_self_eq_false_iff
  alike_self v := by rw [← Bool.not_eq_true, alike_self_iff, not_not]
  agree _ _ h := (alike_eq_same h).symm
  alike_of_same _ _ := hP.alike_of_same

end Value

namespace Evaluator

/-- Whatever can be reached after some uses is of one state. -/
theorem History.coherent {seen : List Value} {e : Evaluator} (h : History seen e) :
    Value.Coherent (e.world.store.Reaches seen) := by
  intro i items others hitems hothers
  have heq : Value.list i items = .list i others := h.accounted.unique _ _ i hitems hothers rfl rfl
  cases heq
  rfl

/-- The pair that is bound is the same as the one at hand, and alike to it. -/
theorem equalitiesFit_paired :
    Value.Coherent (paired.world.store.Reaches [pair]) ∧
      Value.EqualitiesFit (paired.world.store.Reaches [pair]) ∧ pair.alike pair = true := by
  have hfit := Value.equalitiesFit history_paired.coherent
  have hpair : paired.world.store.Reaches [pair] pair := Store.reaches_of_mem List.mem_cons_self
  have hnan : ¬pair.HoldsNaN := fun hnan => by
    obtain ⟨item, hmem, x, hholds, -⟩ := Value.holdsNaN_list_iff.1 hnan
    obtain rfl : item = .nil := by simpa using hmem
    cases hholds
  exact ⟨history_paired.coherent, hfit, hfit.alike_of_same pair pair hpair hpair rfl hnan⟩

end Evaluator

end OutlineLisp
