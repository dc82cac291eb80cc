import Mathlib.Data.Nat.Notation
import Mathlib.Logic.Function.Basic
import OutlineLisp.Value.Primitive

/-!
# Identities

The identities of lists and closures are numbers, but only whether two of them are equal is ever
asked. So values may be given other identities: no operation finds a difference, as long as
different identities stay different. Where identities are all made one, what is left of a value is
its contents.

## Main definitions

* `Value.renumber`: a value with other identities.
* `Value.contents`: a value without its identities.

## Main results

* `Value.renumber_comp`, `Value.contents_renumber`: other identities leave the contents as they are.
* `Value.same_renumber`: different identities stay different.
* `Primitive.result_renumber`: primitives do not look at identities.
-/

namespace OutlineLisp

namespace Value

/-! ### Other identities -/

mutual

/-- A value whose lists and closures have other identities, also inside lists. -/
def renumber (π : ℕ → ℕ) : Value → Value
  | number x => number x
  | text s => text s
  | bool b => bool b
  | nil => nil
  | list i items => list (π i) (renumberAll π items)
  | closure c => closure { c with identity := π c.identity }
  | primitive p => primitive p

/-- Values with other identities. -/
def renumberAll (π : ℕ → ℕ) : List Value → List Value
  | [] => []
  | v :: vs => renumber π v :: renumberAll π vs

end

/-- The contents of a value. A closure has parameters, a body and a scope; its identity is not one
of its contents. -/
def contents (v : Value) : Value := v.renumber fun _ => 0

variable (π σ : ℕ → ℕ)

theorem renumberAll_eq_map (vs : List Value) : renumberAll π vs = vs.map (renumber π) := by
  induction vs with
  | nil => rfl
  | cons v vs ih => rw [renumberAll, List.map_cons, ih]

@[simp] theorem renumber_list (i : ℕ) (items : List Value) :
    (list i items).renumber π = list (π i) (items.map (renumber π)) := by
  rw [renumber, renumberAll_eq_map]

mutual

@[simp] theorem renumber_id : ∀ v : Value, v.renumber id = v
  | number _ | text _ | bool _ | nil | closure _ | primitive _ => rfl
  | list i items => by rw [renumber, renumberAll_id, id]

theorem renumberAll_id : ∀ vs : List Value, renumberAll id vs = vs
  | [] => rfl
  | v :: vs => by rw [renumberAll, renumber_id, renumberAll_id]

end

mutual

theorem renumber_comp : ∀ v : Value, (v.renumber π).renumber σ = v.renumber (σ ∘ π)
  | number _ | text _ | bool _ | nil | closure _ | primitive _ => rfl
  | list i items => by
    rw [renumber, renumber, renumber, renumberAll_comp, Function.comp_apply]

theorem renumberAll_comp :
    ∀ vs : List Value, renumberAll σ (renumberAll π vs) = renumberAll (σ ∘ π) vs
  | [] => rfl
  | v :: vs => by rw [renumberAll, renumberAll, renumberAll, renumber_comp, renumberAll_comp]

end

@[simp] theorem contents_renumber (v : Value) : (v.renumber π).contents = v.contents :=
  renumber_comp π _ v

/-! ### What operations ask of values -/

mutual

@[simp] theorem display_renumber : ∀ v : Value, (v.renumber π).display = v.display
  | number _ | text _ | bool _ | nil | closure _ | primitive _ => rfl
  | list i items => by rw [renumber, display, display, displayItems_renumberAll]

theorem displayItems_renumberAll :
    ∀ vs : List Value, displayItems (renumberAll π vs) = displayItems vs
  | [] => rfl
  | [v] => by rw [renumberAll, renumberAll, displayItems, displayItems, display_renumber]
  | v :: u :: us => by
    change (renumber π v).display ++ "," ++ displayItems (renumberAll π (u :: us))
      = v.display ++ "," ++ displayItems (u :: us)
    rw [display_renumber, displayItems_renumberAll]

end

@[simp] theorem truthy_renumber (v : Value) : (v.renumber π).truthy = v.truthy := by
  cases v <;> rfl

@[simp] theorem callable_renumber (v : Value) : (v.renumber π).callable = v.callable := by
  cases v <;> rfl

variable {π}

/-- Values are the same under other identities only if they are the same, provided that different
identities stay different. -/
theorem same_renumber (hπ : π.Injective) (a b : Value) :
    (a.renumber π).same (b.renumber π) = a.same b := by
  have h (i j : ℕ) : (π i == π j) = (i == j) := by
    rw [Bool.eq_iff_iff, beq_iff_eq, beq_iff_eq, hπ.eq_iff]
  cases a <;> cases b <;> first | rfl | exact h _ _

variable (π)

/-! ### Operands -/

theorem headD_renumber (vs : List Value) :
    (vs.map (renumber π)).headD nil = (vs.headD nil).renumber π := by
  cases vs <;> rfl

theorem first_renumber (args : List Value) :
    first (args.map (renumber π)) = (first args).renumber π :=
  headD_renumber π args

theorem second_renumber (args : List Value) :
    second (args.map (renumber π)) = (second args).renumber π := by
  rw [second, ← List.map_tail, headD_renumber, second]

end Value

namespace Params

/-- Parameters take arguments whatever their identities. -/
theorem bindSlots_renumber (π : ℕ → ℕ) (slots : List (Option String)) (args : List Value) :
    bindSlots slots (args.map (Value.renumber π))
      = (bindSlots slots args).map (Prod.map id (Value.renumber π)) := by
  induction slots generalizing args with
  | nil => rfl
  | cons slot slots ih =>
    cases slot with
    | none => rw [bindSlots, bindSlots, ← List.map_tail, ih]
    | some name =>
      rw [bindSlots, bindSlots, ← List.map_tail, ih, Value.headD_renumber]
      rfl

end Params

/-! ### Primitives -/

namespace Primitive

variable (π : ℕ → ℕ) (p : Primitive)

theorem sum_renumber (a b : Value) :
    sum (a.renumber π) (b.renumber π) = (sum a b).map (Value.renumber π) := by
  have ha : (a.renumber π).display = a.display := a.display_renumber π
  have hb : (b.renumber π).display = b.display := b.display_renumber π
  cases a with
  | text s => exact congrArg (fun t => Except.ok (Value.text (s ++ t))) hb
  | _ =>
    cases b with
    | text t => exact congrArg (fun s => Except.ok (Value.text (s ++ t))) ha
    | _ => rfl

theorem arithmetic_renumber (f : Float → Float → Float) (a b : Value) :
    arithmetic p f (a.renumber π) (b.renumber π)
      = (arithmetic p f a b).map (Value.renumber π) := by
  cases a <;> cases b <;> rfl

theorem comparison_renumber (holds : Option Ordering → Bool) (a b : Value) :
    comparison p holds (a.renumber π) (b.renumber π)
      = (comparison p holds a b).map (Value.renumber π) := by
  cases a <;> cases b <;> rfl

theorem headOf_renumber (v : Value) :
    headOf (v.renumber π) = (headOf v).map (Value.renumber π) := by
  cases v with
  | list i items => cases items <;> rfl
  | _ => rfl

theorem tailOf_renumber (v : Value) :
    tailOf (v.renumber π) = (tailOf v).map (Value.renumber π) := by
  cases v with
  | list i items =>
    cases items with
    | nil => rfl
    | cons item items =>
      rw [Value.renumber_list, List.map_cons, tailOf, Value.headD_renumber]
      rfl
  | _ => rfl

theorem lineOf_renumber (args : List Value) :
    lineOf (args.map (Value.renumber π)) = lineOf args := by
  simp [lineOf, Function.comp_def]

theorem said?_renumber (args : List Value) :
    p.said? (args.map (Value.renumber π)) = p.said? args := by
  cases p with
  | print => exact congrArg some (lineOf_renumber π args)
  | _ => rfl

variable {π}

/-- **Primitives do not look at identities**, but for whether two of them are equal. -/
theorem result_renumber (hπ : π.Injective) (fresh : ℕ) (args : List Value) :
    p.result (π fresh) (args.map (Value.renumber π))
      = (p.result fresh args).map (Value.renumber π) := by
  have ha := Value.first_renumber π args
  have hb := Value.second_renumber π args
  cases p with
  | add => simp only [result, ha, hb, sum_renumber]
  | subtract | multiply | divide | remainder => simp only [result, ha, hb, arithmetic_renumber]
  | lessOrEqual | greaterOrEqual | less | greater =>
    simp only [result, ha, hb, comparison_renumber]
  | notEqual | equal =>
    simp only [result, ha, hb, Value.same_renumber hπ]
    rfl
  | logicalNot =>
    simp only [result, ha, Value.truthy_renumber]
    rfl
  | logicalAnd | logicalOr =>
    simp only [result, ha, hb, Value.truthy_renumber]
    split <;> rfl
  | cons =>
    simp only [result, ha, hb]
    rfl
  | car => simp only [result, ha, headOf_renumber]
  | cdr => simp only [result, ha, tailOf_renumber]
  | print =>
    simp only [result, lineOf_renumber]
    rfl

end Primitive

end OutlineLisp
