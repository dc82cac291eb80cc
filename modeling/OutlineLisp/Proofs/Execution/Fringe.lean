import OutlineLisp.Proofs.Execution.Comparison
import OutlineLisp.Proofs.Value.Reassociation

/-!
# What is seen of a structure of pairs

Users of an evaluator see a value as `print` says it, and as `+` joins it to a text. Of a structure
of pairs they see the leaves in their order, and nothing of the pairs themselves: whichever way
these have been associated, `print` and `+` answer the same, and leave the same evaluator.
Re-association is as general here as can be: it relates any two structures of pairs with the same
leaves in the same order.

## Main definitions

* `Evaluator.Conses`: a call of `cons` that succeeds.
* `Evaluator.ShowsFringe`: what is seen of the leaves of a value, and of the association of pairs.

## Main results

* `Evaluator.apply_of_reassociated`: `print` and `+` do not tell re-associated arguments apart.
* `Evaluator.showsFringe`: only leaves are seen.
-/

namespace OutlineLisp

namespace Evaluator

open Machine Primitive Value

/-- Whether a call of `cons` makes some pair of two values, and what evaluator it leaves. -/
def Conses (limits : Limits) (e : Evaluator) (a b v : Value) (e' : Evaluator) : Prop :=
  e.apply limits (.primitive cons) [a, b] = (.ok v, e')

/-- What is seen of the leaves of a value, and of the association of pairs. -/
structure ShowsFringe (limits : Limits) (e : Evaluator) : Prop where
  /-- The text of a value is that of its leaves, from left to right, with one comma between any two
  neighbours, if no list in it is empty. -/
  display : ∀ v : Value, v.Filled → v.display = ",".intercalate (v.fringe.map Value.display)
  /-- The leaves are what the value holds besides lists. -/
  leaves : ∀ u v : Value, u ∈ v.fringe ↔ v.Holds u ∧ u.type ≠ .pair
  /-- A leaf that is nil has an empty text. -/
  nil : Value.nil.display = ""
  /-- `print` answers the texts of its arguments, and says them in a line. -/
  printed : ∀ args : List Value, ∃ e',
    e.apply limits (.primitive print) args
        = (.ok (.text (" ".intercalate (args.map Value.display))), e') ∧
      e'.world.lines = e.world.lines.push (" ".intercalate (args.map Value.display))
  /-- `+` joins the text of a value to another text, on either side. -/
  joined : ∀ (v : Value) (s : String),
    e.ask limits add v (.text s) = .ok (.text (v.display ++ s)) ∧
      e.ask limits add (.text s) v = .ok (.text (s ++ v.display))
  /-- Three values can be paired in two ways, and both pairs print the same. -/
  paired : ∀ a b c : Value, ∃ ab bc v w e₁ e₂,
    (e.Conses limits b c bc e₁ ∧ e₁.Conses limits a bc v e₂) ∧
      (e.Conses limits a b ab e₁ ∧ e₁.Conses limits ab c w e₂) ∧
      v.Reassociated w ∧
      e₂.apply limits (.primitive print) [v] = e₂.apply limits (.primitive print) [w]
  /-- Re-association does not change the text of any value. -/
  display_reassociated : ∀ v w : Value, v.Reassociated w → v.display = w.display
  /-- It does not change the outcome of `print` and `+`, either, nor what they leave. -/
  asked_reassociated : ∀ p ∈ textual, ∀ args args', List.Forall₂ Reassociated args args' →
    e.apply limits (.primitive p) args = e.apply limits (.primitive p) args'
  /-- Structures of pairs are re-associations of each other if and only if they have the same
  leaves. -/
  reassociated_iff : ∀ v w : Value, v.OfPairs → w.OfPairs →
    (v.Reassociated w ↔ v.fringe = w.fringe)
  /-- Primitives make nothing but structures of pairs, in which no list is empty. -/
  ofPairs : ∀ (p : Primitive) (args : List Value) (v : Value), (∀ a ∈ args, a.OfPairs) →
    (e.apply limits (.primitive p) args).1 = .ok v → v.OfPairs ∧ v.Filled

variable {limits : Limits} {e : Evaluator} {p : Primitive} {args args' : List Value}

/-- **`print` and `+`** do not tell re-associated arguments apart. -/
theorem apply_of_reassociated (hp : p ∈ textual) (h : List.Forall₂ Reassociated args args') :
    e.apply limits (.primitive p) args = e.apply limits (.primitive p) args' := by
  have hresult : p.result e.world.fresh args = p.result e.world.fresh args' :=
    result_of_reassociated hp _ h
  have hsaid : p.said? args = p.said? args' := said?_of_reassociated p h
  rw [apply_eq_finish, apply_eq_finish, call, call, hresult, hsaid]

/-- A call of `cons` succeeds. -/
theorem conses_list (limits : Limits) (e : Evaluator) (a b : Value) :
    e.Conses limits a b (list e.world.fresh [a, b]) e.drawIdentity.2 :=
  apply_primitive_of_ok rfl

/-- **Only leaves are seen** of structures of pairs. -/
theorem showsFringe (limits : Limits) (e : Evaluator) : e.ShowsFringe limits where
  display _ := display_eq_of_filled
  leaves _ _ := mem_fringe_iff
  nil := rfl
  printed args := ⟨_, apply_primitive_of_ok rfl, rfl⟩
  joined v s := by
    rw [ask_eq, ask_eq]
    refine ⟨?_, rfl⟩
    cases v <;> rfl
  paired a b c := by
    have hrotate := Reassociated.rotate (e.world.fresh + 1) e.world.fresh (e.world.fresh + 1)
      e.world.fresh a b c
    exact ⟨_, _, _, _, _, _, ⟨conses_list limits e b c, conses_list limits _ a _⟩,
      ⟨conses_list limits e a b, conses_list limits _ _ c⟩, hrotate,
      apply_of_reassociated (by decide) (.cons hrotate .nil)⟩
  display_reassociated _ _ := Reassociated.display_eq
  asked_reassociated _ hp _ _ := apply_of_reassociated hp
  reassociated_iff _ _ := Value.reassociated_iff
  ofPairs p args v hargs h := by
    rw [fst_apply_primitive] at h
    have hv : v.OfPairs := result_inherits (inherited_ofPairs _) hargs h
    exact ⟨hv, hv.filled⟩

end Evaluator

end OutlineLisp
