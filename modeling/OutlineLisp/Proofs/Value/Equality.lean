import OutlineLisp.Proofs.Number.Comparison
import OutlineLisp.Proofs.Value.Provenance

/-!
# Two equalities

Values can be the same, and they can be alike, which means equal by their contents. The two differ
on lists only: a list is the same as itself alone, but alike to every list whose items are alike to
its own. Both are symmetric and transitive. What is not a number is neither the same as itself nor
alike to itself, so a list that holds it is the same as itself but not alike to itself.

## Main definitions

* `Value.HoldsNaN`: values with something inside that is not a number.
* `Value.Coherent`: values among which lists with one identity have the same items.

## Main results

* `Value.same_comm`, `Value.same_trans`, `Value.same_self_eq_false_iff`: being the same.
* `Value.alike_comm`, `Value.alike_trans`, `Value.alike_self_iff`: being alike.
* `Value.alike_eq_same`: where the two agree.
* `Value.Coherent.alike_of_same`: what is the same is alike, unless it holds what is not a number.
-/

namespace OutlineLisp

namespace Value

variable {a b c v : Value}

/-! ### Being the same -/

theorem same_comm (a b : Value) : a.same b = b.same a := by
  cases a <;> cases b <;> first | rfl | exact Binary64.beq_comm _ _ | exact Bool.beq_comm

theorem same_trans (h : a.same b = true) (h' : b.same c = true) : a.same c = true := by
  cases a <;> cases b <;> try exact absurd h Bool.false_ne_true
  all_goals cases c <;> try exact absurd h' Bool.false_ne_true
  case number.number.number => exact Binary64.beq_trans h h'
  case nil.nil.nil => rfl
  all_goals exact BEq.trans h h'

theorem type_eq_of_same (h : a.same b = true) : a.type = b.type := by
  cases a <;> cases b <;> first | rfl | cases h

/-- **Only what is not a number** is not the same as itself. -/
theorem same_self_eq_false_iff (v : Value) :
    v.same v = false ↔ ∃ x, v = number x ∧ x.isNaN = true := by
  constructor
  · intro h
    cases v with
    | number x =>
      refine ⟨x, rfl, ?_⟩
      rw [← Bool.not_eq_false, ← Binary64.beq_self_iff]
      exact Bool.eq_false_iff.1 h
    | _ => rw [same_self (by simp)] at h; cases h
  · rintro ⟨x, rfl, hx⟩
    rw [Bool.eq_false_iff]
    exact fun h => by rw [(Binary64.beq_self_iff x).1 h] at hx; cases hx

/-! ### Being alike -/

/-- Induction along the items of lists, at any depth. -/
@[elab_as_elim]
theorem induction_items {motive : Value → Prop}
    (other : ∀ v : Value, v.type ≠ .pair → motive v)
    (list : ∀ i items, (∀ v ∈ items, motive v) → motive (list i items)) : ∀ v, motive v
  | .list i items => list i items fun v hv =>
    have := List.sizeOf_lt_of_mem hv
    induction_items other list v
  | .number _ | .text _ | .bool _ | .nil | .closure _ | .primitive _ => other _ nofun
termination_by v => sizeOf v
decreasing_by
  simp only [Value.list.sizeOf_spec]
  omega

/-- **The two equalities agree** on values that are not both lists. -/
theorem alike_eq_same (h : ¬(a.type = .pair ∧ b.type = .pair)) : a.alike b = a.same b := by
  cases a with
  | list i items =>
    cases b with
    | list j others => exact absurd ⟨rfl, rfl⟩ h
    | _ => rfl
  | _ => rfl

theorem alikeItems_comm {us : List Value} (h : ∀ u ∈ us, ∀ v, u.alike v = v.alike u)
    (vs : List Value) : alikeItems us vs = alikeItems vs us := by
  induction us generalizing vs with
  | nil => cases vs <;> rfl
  | cons u us ih =>
    cases vs with
    | nil => rfl
    | cons v vs =>
      rw [alikeItems, alikeItems, h u List.mem_cons_self v,
        ih (fun w hw => h w (List.mem_cons_of_mem u hw))]

theorem alike_comm (a b : Value) : a.alike b = b.alike a := by
  induction a using induction_items generalizing b with
  | other a ha =>
    rw [alike_eq_same (fun h => ha h.1), alike_eq_same (fun h => ha h.2), same_comm]
  | list i us ih =>
    cases b with
    | list j vs => exact alikeItems_comm ih vs
    | _ => rfl

theorem alikeItems_trans {us : List Value}
    (h : ∀ u ∈ us, ∀ {v w : Value}, u.alike v = true → v.alike w = true → u.alike w = true)
    {vs ws : List Value} (huv : alikeItems us vs = true) (hvw : alikeItems vs ws = true) :
    alikeItems us ws = true := by
  induction us generalizing vs ws with
  | nil =>
    cases vs with
    | nil => exact hvw
    | cons v vs => cases huv
  | cons u us ih =>
    cases vs with
    | nil => cases huv
    | cons v vs =>
      cases ws with
      | nil => cases hvw
      | cons w ws =>
        rw [alikeItems, Bool.and_eq_true] at huv hvw ⊢
        exact ⟨h u List.mem_cons_self huv.1 hvw.1,
          ih (fun t ht => h t (List.mem_cons_of_mem u ht)) huv.2 hvw.2⟩

theorem alike_trans (h : a.alike b = true) (h' : b.alike c = true) : a.alike c = true := by
  induction a using induction_items generalizing b c with
  | other a ha =>
    rw [alike_eq_same fun hlists => ha hlists.1] at h ⊢
    have hb : b.type ≠ .pair := type_eq_of_same h ▸ ha
    rw [alike_eq_same fun hlists => hb hlists.1] at h'
    exact same_trans h h'
  | list i us ih =>
    cases b with
    | list j vs =>
      cases c with
      | list k ws => exact alikeItems_trans ih h h'
      | _ => cases h'
    | _ => cases h

/-! ### Being alike to itself -/

/-- Whether something inside a value is not a number. -/
def HoldsNaN (v : Value) : Prop := ∃ x, v.Holds (number x) ∧ x.isNaN = true

theorem holdsNaN_list_iff {i : ℕ} {items : List Value} :
    (list i items).HoldsNaN ↔ ∃ item ∈ items, item.HoldsNaN := by
  constructor
  · rintro ⟨x, hholds, hx⟩
    obtain ⟨item, hmem, hitem⟩ := (holds_list_iff.1 hholds).resolve_left nofun
    exact ⟨item, hmem, x, hitem, hx⟩
  · rintro ⟨item, hmem, x, hitem, hx⟩
    exact ⟨x, .item hmem hitem, hx⟩

/-- A value that is no list holds nothing but itself. -/
theorem holdsNaN_iff (hv : v.type ≠ .pair) : v.HoldsNaN ↔ ∃ x, v = number x ∧ x.isNaN = true := by
  constructor
  · rintro ⟨x, hholds, hx⟩
    cases hholds with
    | self => exact ⟨x, rfl, hx⟩
    | item => exact absurd rfl hv
  · rintro ⟨x, rfl, hx⟩
    exact ⟨x, .self _, hx⟩

theorem alikeItems_self_iff (items : List Value) :
    alikeItems items items = true ↔ ∀ v ∈ items, v.alike v = true := by
  induction items with
  | nil => simp [alikeItems]
  | cons v items ih => rw [alikeItems, Bool.and_eq_true, ih, List.forall_mem_cons]

/-- **A value is alike to itself** unless it holds what is not a number. -/
theorem alike_self_iff (v : Value) : v.alike v = true ↔ ¬v.HoldsNaN := by
  induction v using induction_items with
  | other v hv =>
    rw [alike_eq_same fun hlists => hv hlists.1, holdsNaN_iff hv, ← same_self_eq_false_iff,
      Bool.not_eq_false]
  | list i items ih =>
    have hitems : (list i items).alike (list i items) = alikeItems items items := by rw [alike]
    rw [hitems, alikeItems_self_iff, holdsNaN_list_iff]
    push Not
    exact forall₂_congr ih

/-! ### The values of one state -/

/-- Whether lists with one identity have the same items, as it is with the values of one state. -/
def Coherent (P : Value → Prop) : Prop :=
  ∀ i items others, P (list i items) → P (list i others) → items = others

/-- **What is the same is alike** unless it holds what is not a number. -/
theorem Coherent.alike_of_same {P : Value → Prop} (hP : Coherent P) (ha : P a) (hb : P b)
    (h : a.same b = true) (hnan : ¬a.HoldsNaN) : a.alike b = true := by
  by_cases hlists : a.type = .pair ∧ b.type = .pair
  · cases a with
    | list i items =>
      cases b with
      | list j others =>
        obtain rfl : i = j := eq_of_beq h
        obtain rfl := hP i items others ha hb
        exact (alike_self_iff _).2 hnan
      | _ => cases h
    | _ => cases hlists.1
  · rw [alike_eq_same hlists, h]

end Value

end OutlineLisp
