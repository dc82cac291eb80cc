import OutlineLisp.Proofs.Scope.Renaming
import OutlineLisp.Value.Primitive

/-!
# Values under other names

No operation looks inside a closure, so none tells values apart that differ only in the choice of
names there: they look the same, they are true or false alike, and a primitive makes the same of
them.

## Main definitions

* `Value.Within`, `Store.Intact`: values and stores whose closures keep scopes that exist.
* `Primitive.Answers`: what primitives make of values that differ only in the choice of names.

## Main results

* `Value.Alpha.display`, `Value.Alpha.truthy`, `Value.Alpha.type`, `Value.Alpha.same`: such values
  look and compare the same.
* `Primitive.answers_result`: primitives make the same of them.
-/

namespace OutlineLisp

variable {st st' : Store}

/-! ### Closures that keep scopes -/

/-- Whether the closures in a value keep scopes with numbers below a bound. -/
inductive Value.Within (n : ℕ) : Value → Prop where
  | number (x : Float) : Within n (.number x)
  | text (s : String) : Within n (.text s)
  | bool (b : Bool) : Within n (.bool b)
  | nil : Within n .nil
  | list (identity : ℕ) {items : List Value} (h : ∀ item ∈ items, Within n item) :
    Within n (.list identity items)
  | closure {c : Closure} (h : c.scope < n) : Within n (.closure c)
  | primitive (p : Primitive) : Within n (.primitive p)

/-- Whether the closures in a store keep scopes of that store. -/
def Store.Intact (st : Store) : Prop := ∀ id, ∀ b ∈ st.bindings id, b.2.Within st.size

/-- A value differs from itself in nothing. -/
theorem Value.Within.alpha {v : Value} (h : v.Within st.size) : Value.Alpha st st v v := by
  induction h with
  | number x => exact .number x
  | text s => exact .text s
  | bool b => exact .bool b
  | nil => exact .nil
  | list identity _ ih =>
    refine .list identity rfl fun p hp => ?_
    rw [List.zip_eq_zipWith, List.zipWith_self] at hp
    obtain ⟨item, hitem, rfl⟩ := List.mem_map.1 hp
    exact ih item hitem
  | @closure c h => exact .closure c.identity h (Form.alpha_refl (st.corresponds_self c.scope) _)
  | primitive p => exact .primitive p

theorem Store.Intact.alpha (h : st.Intact) : st.Alpha st where
  size := rfl
  parent _ := rfl
  bindings id := List.forall₂_same.2 fun b hb => (h id b hb).alpha

theorem Value.Alpha.within {v v' : Value} (h : Value.Alpha st st' v v') : v.Within st.size := by
  induction h with
  | number x => exact .number x
  | text s => exact .text s
  | bool b => exact .bool b
  | nil => exact .nil
  | @list identity items items' hlength _ ih =>
    refine .list identity fun item hitem => ?_
    obtain ⟨i, hi, rfl⟩ := List.mem_iff_getElem.1 hitem
    have hmem : (items[i], items'[i]) ∈ items.zip items' :=
      List.mem_iff_getElem.2 ⟨i, by simp; omega, by simp⟩
    exact ih _ hmem
  | closure identity hscope _ => exact .closure hscope
  | primitive p => exact .primitive p

/-- A scope may bind a name to any value whose closures keep scopes that exist. -/
theorem Store.Intact.define (h : st.Intact) {v : Value} (hv : v.Within st.size) (id : ScopeId)
    (name : String) : (st.define id name v).Intact := by
  intro i b hb
  rw [Store.size_define]
  rw [Store.bindings, Store.scope?_define] at hb
  split at hb
  · cases hs : st.scope? i with
    | none =>
      rw [hs] at hb
      cases hb
    | some s =>
      rw [hs] at hb
      rcases List.mem_cons.1 hb with rfl | hb
      · exact hv
      · exact h i b (by rwa [Store.bindings, hs])
  · exact h i b hb

/-- Only stores whose closures keep scopes are compared. -/
theorem Store.Alpha.intact (h : st.Alpha st') : st.Intact := by
  intro id b hb
  obtain ⟨i, hi, rfl⟩ := List.mem_iff_getElem.1 hb
  have hi' : i < (st'.bindings id).length := (h.bindings id).length_eq ▸ hi
  exact ((h.bindings id).get hi hi').within

namespace Value

/-! ### What operations ask of values -/

theorem displayItems_congr {items items' : List Value}
    (h : List.Forall₂ (fun item item' => display item = display item') items items') :
    displayItems items = displayItems items' := by
  induction h with
  | nil => rfl
  | @cons item item' items items' hitem htail ih =>
    cases htail with
    | nil => exact hitem
    | @cons next next' rest rest' _ _ =>
      change display item ++ "," ++ displayItems (next :: rest)
        = display item' ++ "," ++ displayItems (next' :: rest')
      rw [hitem, ih]

namespace Alpha

variable {v v' a a' b b' : Value}

/-- Such values look the same. -/
theorem display (h : Value.Alpha st st' v v') : v.display = v'.display := by
  induction h with
  | list identity hlength _ ih =>
    rw [Value.display, Value.display]
    refine displayItems_congr (List.forall₂_iff_zip.2 ⟨hlength, fun hp => ih _ hp⟩)
  | _ => rfl

theorem truthy (h : Value.Alpha st st' v v') : v.truthy = v'.truthy := by
  cases h <;> rfl

theorem type (h : Value.Alpha st st' v v') : v.type = v'.type := by
  cases h <;> rfl

theorem callable (h : Value.Alpha st st' v v') : v.callable = v'.callable := by
  cases h <;> rfl

/-- Two of them are the same value if the other two are. -/
theorem same (ha : Value.Alpha st st' a a') (hb : Value.Alpha st st' b b') :
    a.same b = a'.same b' := by
  cases ha <;> cases hb <;> rfl

end Alpha

theorem headD_alpha {args args' : List Value} (h : List.Forall₂ (Alpha st st') args args') :
    Alpha st st' (args.headD .nil) (args'.headD .nil) := by
  cases h with
  | nil => exact .nil
  | cons h _ => exact h

end Value

/-! ### Primitives -/

namespace Primitive

/-- Whether two answers of a primitive are values that differ only in the choice of names, or the
same fault. -/
inductive Answers (st st' : Store) : Except Fault Value → Except Fault Value → Prop where
  | value {v v' : Value} (h : Value.Alpha st st' v v') : Answers st st' (.ok v) (.ok v')
  | fault (f : Fault) : Answers st st' (.error f) (.error f)

variable {a a' b b' : Value}

theorem answers_sum (ha : Value.Alpha st st' a a') (hb : Value.Alpha st st' b b') :
    Answers st st' (sum a b) (sum a' b') := by
  have hda := ha.display
  cases ha with
  | text s =>
    change Answers st st' (.ok (.text (s ++ b.display))) (.ok (.text (s ++ b'.display)))
    rw [hb.display]
    exact .value (.text _)
  | number x =>
    cases hb with
    | number y => exact .value (.number _)
    | text t => exact .value (.text _)
    | _ => exact .fault _
  | list identity hlength h =>
    cases hb with
    | text t =>
      simp only [sum, hda]
      exact .value (.text _)
    | _ => exact .fault _
  | _ =>
    cases hb with
    | text t => exact .value (.text _)
    | _ => exact .fault _

theorem answers_arithmetic (p : Primitive) (f : Float → Float → Float)
    (ha : Value.Alpha st st' a a') (hb : Value.Alpha st st' b b') :
    Answers st st' (arithmetic p f a b) (arithmetic p f a' b') := by
  cases ha <;> cases hb <;> first | exact .fault _ | exact .value (.number _)

theorem answers_comparison (p : Primitive) (holds : Option Ordering → Bool)
    (ha : Value.Alpha st st' a a') (hb : Value.Alpha st st' b b') :
    Answers st st' (comparison p holds a b) (comparison p holds a' b') := by
  cases ha <;> cases hb <;> first | exact .fault _ | exact .value (.bool _)

theorem answers_headOf (ha : Value.Alpha st st' a a') :
    Answers st st' (headOf a) (headOf a') := by
  cases ha with
  | list identity hlength h =>
    cases Value.forall₂_alpha.2 ⟨hlength, h⟩ with
    | nil => exact .fault _
    | cons hitem _ => exact .value hitem
  | _ => exact .fault _

theorem answers_tailOf (ha : Value.Alpha st st' a a') :
    Answers st st' (tailOf a) (tailOf a') := by
  cases ha with
  | list identity hlength h =>
    cases Value.forall₂_alpha.2 ⟨hlength, h⟩ with
    | nil => exact .fault _
    | cons _ hitems => exact .value (Value.headD_alpha hitems)
  | _ => exact .fault _

theorem lineOf_congr {args args' : List Value}
    (h : List.Forall₂ (Value.Alpha st st') args args') : lineOf args = lineOf args' := by
  have hmap : args.map Value.display = args'.map Value.display := by
    induction h with
    | nil => rfl
    | cons h _ ih => rw [List.map_cons, List.map_cons, h.display, ih]
  rw [lineOf, lineOf, hmap]

theorem said?_congr (p : Primitive) {args args' : List Value}
    (h : List.Forall₂ (Value.Alpha st st') args args') : p.said? args = p.said? args' := by
  cases p with
  | print => exact congrArg some (lineOf_congr h)
  | _ => rfl

/-- **Primitives make the same of values** that differ only in the choice of names. -/
theorem answers_result (p : Primitive) (fresh : ℕ) {args args' : List Value}
    (h : List.Forall₂ (Value.Alpha st st') args args') :
    Answers st st' (p.result fresh args) (p.result fresh args') := by
  have ha : Value.Alpha st st' (Value.first args) (Value.first args') := Value.headD_alpha h
  have hb : Value.Alpha st st' (Value.second args) (Value.second args') := by
    cases h with
    | nil => exact .nil
    | cons _ h => exact Value.headD_alpha h
  cases p with
  | add => exact answers_sum ha hb
  | subtract | multiply | divide | remainder => exact answers_arithmetic _ _ ha hb
  | lessOrEqual | greaterOrEqual | less | greater =>
    simp only [result]
    exact answers_comparison _ _ ha hb
  | notEqual | equal =>
    simp only [result, ha.same hb]
    exact .value (.bool _)
  | logicalNot =>
    simp only [result, ha.truthy]
    exact .value (.bool _)
  | logicalAnd | logicalOr =>
    simp only [result, ha.truthy]
    split
    · exact .value ‹_›
    · exact .value ‹_›
  | cons =>
    refine .value (.list fresh rfl ?_)
    simpa using ⟨ha, hb⟩
  | car => exact answers_headOf ha
  | cdr => exact answers_tailOf ha
  | print =>
    simp only [result, lineOf_congr h]
    exact .value (.text _)

end Primitive

end OutlineLisp
