import OutlineLisp.Proofs.Machine.Termination
import OutlineLisp.Proofs.Value.Comparison
import OutlineLisp.Proofs.Value.Equality

/-!
# Six comparisons and one order

Four primitives compare their operands and two ask whether these are the same. Of operands that
compare, all six tell one order: the order of codes for numbers, and that of code points for texts,
which is the order of their bytes. Of operands that do not compare, the four either affirm nothing,
if they are numbers, or fail, and the two still answer.

## Main definitions

* `Evaluator.ask`, `Evaluator.Affirms`: what a primitive answers to two operands.
* `Evaluator.ComparisonsCohere`: what the answers have to do with each other.

## Main results

* `Evaluator.comparisonsCohere`: they tell one order.
-/

namespace OutlineLisp

namespace Evaluator

open Machine Primitive Value

/-- What a primitive answers to two operands. -/
def ask (limits : Limits) (e : Evaluator) (p : Primitive) (a b : Value) : Except Fault Value :=
  (e.apply limits (.primitive p) [a, b]).1

/-- Whether a primitive answers that something is true of two operands. -/
def Affirms (limits : Limits) (e : Evaluator) (p : Primitive) (a b : Value) : Prop :=
  e.ask limits p a b = .ok (.bool true)

/-- What the answers of the comparisons have to do with each other. -/
structure ComparisonsCohere (limits : Limits) (e : Evaluator) : Prop where
  /-- Comparisons answer to operands that compare. -/
  answered : ∀ a b, Comparable a b → ∀ p ∈ comparisons, ∃ t, e.ask limits p a b = .ok (.bool t)
  /-- Either one of the operands comes before the other, or they are equal. -/
  one : ∀ a b, Comparable a b → ∃! p, p ∈ [less, equal, greater] ∧ e.Affirms limits p a b
  lessOrEqual_iff : ∀ a b, Comparable a b →
    (e.Affirms limits lessOrEqual a b ↔ e.Affirms limits less a b ∨ e.Affirms limits equal a b)
  greaterOrEqual_iff : ∀ a b, Comparable a b →
    (e.Affirms limits greaterOrEqual a b ↔
      e.Affirms limits greater a b ∨ e.Affirms limits equal a b)
  /-- The operands can be exchanged with the comparison. -/
  exchanged : ∀ a b, Comparable a b → e.ask limits greater a b = e.ask limits less b a
  /-- The two equalities answer to all operands, and in opposite ways. -/
  opposite : ∀ a b, ∃ t, e.ask limits equal a b = .ok (.bool t) ∧
    e.ask limits notEqual a b = .ok (.bool !t)
  irreflexive : ∀ a, ¬e.Affirms limits less a a
  transitive : ∀ a b c, e.Affirms limits less a b → e.Affirms limits less b c →
    e.Affirms limits less a c
  /-- Numbers are in the order of their codes. -/
  numbers : ∀ x y, e.Affirms limits less (number x) (number y) ↔
    x.isNaN = false ∧ y.isNaN = false ∧ Binary64.signed x < Binary64.signed y
  /-- Texts are in the order of their code points. -/
  codePoints : ∀ s t, e.Affirms limits less (text s) (text t) ↔
    List.Lex (fun c d => c.toNat < d.toNat) s.toList t.toList
  /-- That is the order of their bytes. -/
  bytes : ∀ s t, e.Affirms limits less (text s) (text t) ↔
    List.Lex (fun x y => x.toNat < y.toNat) s.toUTF8.data.toList t.toUTF8.data.toList
  /-- A text comes before those that go on after it. -/
  properPrefix : ∀ s t : String, s.toList <+: t.toList → s ≠ t →
    e.Affirms limits less (text s) (text t)
  /-- What is not a number compares to no number. -/
  notANumber : ∀ x y : Float, x.isNaN = true ∨ y.isNaN = true →
    (∀ p ∈ equal :: comparisons, e.ask limits p (number x) (number y) = .ok (.bool false)) ∧
      e.ask limits notEqual (number x) (number y) = .ok (.bool true)
  /-- Comparisons fail on operands of other types. -/
  mismatched : ∀ a b : Value, ¬(a.type = .number ∧ b.type = .number) →
    ¬(a.type = .text ∧ b.type = .text) →
    ∀ p ∈ comparisons, e.ask limits p a b = .error (.mismatch p a.type b.type)

variable {limits : Limits} {e : Evaluator} {p : Primitive} {a b c : Value}

/-! ### Calls of primitives -/

section Primitives

variable {args : List Value} {v : Value}

/-- What a primitive answers, and what it leaves. -/
theorem apply_primitive_of_ok (h : p.result e.world.fresh args = .ok v) :
    e.apply limits (.primitive p) args
      = (.ok v, { e with world := (e.world.say (p.said? args)).draw }) := by
  rw [apply_eq_finish, call, h, Step.finish_next, run_eq_finish]
  rfl

/-- A primitive answers its result, in any state. -/
theorem fst_apply_primitive (limits : Limits) (e : Evaluator) (p : Primitive) (args : List Value) :
    (e.apply limits (.primitive p) args).1 = p.result e.world.fresh args := by
  cases h : p.result e.world.fresh args with
  | ok v => rw [apply_primitive_of_ok h]
  | error fault =>
    rw [apply_eq_finish, call, h]
    rfl

end Primitives

theorem ask_eq (limits : Limits) (e : Evaluator) (p : Primitive) (a b : Value) :
    e.ask limits p a b = p.result e.world.fresh [a, b] :=
  fst_apply_primitive limits e p [a, b]

/-! ### The answers of the comparisons -/

theorem affirms_less_iff : e.Affirms limits less a b ↔ a.order? b = some .lt := by
  rw [Affirms, ask_eq, result_eq_comparison (by decide), comparison_eq_true_iff rfl]
  exact beq_iff_eq

theorem affirms_less_texts_iff (s t : String) :
    e.Affirms limits less (text s) (text t) ↔ Text.Before s.toList t.toList := by
  rw [affirms_less_iff, order?, compareTexts_eq, Option.some_inj, compare_lt_iff_lt,
    Text.lt_iff_before]

/-- **Operands that compare** do so in one way for all six. -/
theorem ask_of_comparable (h : Comparable a b) (limits : Limits) (e : Evaluator) :
    ∃ o : Ordering, ∀ p ∈ comparisons ++ equalities,
      e.ask limits p a b = .ok (.bool (p.holds (some o))) ∧
        e.ask limits p b a = .ok (.bool (p.holds (some o.swap))) := by
  obtain ⟨o, hab, hba, hsame⟩ := h.exists_order
  have hsame' : b.same a = (o.swap == .eq) := by
    rw [same_comm, hsame]
    cases o <;> rfl
  refine ⟨o, fun p hp => ?_⟩
  rw [ask_eq, ask_eq]
  rcases List.mem_append.1 hp with hp | hp
  · rw [result_eq_comparison hp, result_eq_comparison hp, comparison_of_order hab,
      comparison_of_order hba]
    exact ⟨rfl, rfl⟩
  · exact ⟨result_eq_holds hp hsame _, result_eq_holds hp hsame' _⟩

/-- What is not a number does not compare, whichever of the six asks for it. -/
theorem ask_of_isNaN {x y : Float} (h : x.isNaN = true ∨ y.isNaN = true) (limits : Limits)
    (e : Evaluator) (hp : p ∈ comparisons ++ equalities) :
    e.ask limits p (number x) (number y) = .ok (.bool (p.holds none)) := by
  rw [ask_eq]
  rcases List.mem_append.1 hp with hp | hp
  · rw [result_eq_comparison hp, comparison, compareNumbers_of_isNaN h]
  · refine result_eq_holds hp ?_ _
    show (x == y) = false
    rw [Bool.eq_false_iff, Ne, Binary64.beq_iff]
    rcases h with h | h <;> simp only [h, Bool.true_eq_false, false_and, and_false, not_false_iff]

/-- What the six affirm of operands that compare. -/
theorem affirms_iff_of_comparable (h : Comparable a b) (limits : Limits) (e : Evaluator) :
    ∃ o : Ordering, ∀ p ∈ comparisons ++ equalities,
      e.Affirms limits p a b ↔ p.holds (some o) = true := by
  obtain ⟨o, ho⟩ := ask_of_comparable h limits e
  refine ⟨o, fun p hp => ?_⟩
  rw [Affirms, (ho p hp).1]
  simp only [Except.ok.injEq, bool.injEq]

/-- **Six comparisons** tell one order. -/
theorem comparisonsCohere (limits : Limits) (e : Evaluator) : e.ComparisonsCohere limits where
  answered a b h p hp := by
    obtain ⟨o, ho⟩ := ask_of_comparable h limits e
    exact ⟨_, (ho p (List.mem_append_left _ hp)).1⟩
  one a b h := by
    obtain ⟨o, ho⟩ := affirms_iff_of_comparable h limits e
    obtain ⟨p, ⟨hp, hholds⟩, hunique⟩ := existsUnique_holds o
    have haffirms {q : Primitive} (hq : q ∈ [less, equal, greater]) :=
      ho q ((by decide : [less, equal, greater] ⊆ comparisons ++ equalities) hq)
    exact ⟨p, ⟨hp, (haffirms hp).2 hholds⟩, fun q hq => hunique q ⟨hq.1, (haffirms hq.1).1 hq.2⟩⟩
  lessOrEqual_iff a b h := by
    obtain ⟨o, ho⟩ := affirms_iff_of_comparable h limits e
    rw [ho lessOrEqual (by decide), ho less (by decide), ho equal (by decide)]
    exact Bool.or_eq_true_iff
  greaterOrEqual_iff a b h := by
    obtain ⟨o, ho⟩ := affirms_iff_of_comparable h limits e
    rw [ho greaterOrEqual (by decide), ho greater (by decide), ho equal (by decide)]
    exact Bool.or_eq_true_iff
  exchanged a b h := by
    obtain ⟨o, ho⟩ := ask_of_comparable h limits e
    rw [(ho greater (by decide)).1, (ho less (by decide)).2]
    cases o <;> rfl
  opposite a b := ⟨a.same b, ask_eq limits e equal a b, ask_eq limits e notEqual a b⟩
  irreflexive a h := order?_self_ne_lt a (affirms_less_iff.1 h)
  transitive a b c h h' :=
    affirms_less_iff.2 (order?_trans (affirms_less_iff.1 h) (affirms_less_iff.1 h'))
  numbers x y := by
    rw [affirms_less_iff, order?, compareNumbers_eq_lt_iff, Binary64.lt_iff]
  codePoints := affirms_less_texts_iff
  bytes s t := (affirms_less_texts_iff s t).trans (Text.lt_iff_bytesBefore s t)
  properPrefix s t hprefix hne := by
    obtain ⟨ds, hds⟩ := hprefix
    rw [affirms_less_texts_iff, ← hds]
    refine Text.before_append s.toList fun hnil => hne ?_
    rw [hnil, List.append_nil] at hds
    exact String.toList_injective hds
  notANumber x y h := by
    have hnone : ∀ p ∈ equal :: comparisons, p ∈ comparisons ++ equalities ∧ p.holds none = false :=
      by decide
    refine ⟨fun p hp => ?_, ask_of_isNaN h limits e (by decide)⟩
    rw [ask_of_isNaN h limits e (hnone p hp).1, (hnone p hp).2]
  mismatched a b hnumbers htexts p hp := by
    rw [ask_eq, result_eq_comparison hp, comparison_mismatched hnumbers htexts,
      Primitive.mismatched]

end Evaluator

end OutlineLisp
