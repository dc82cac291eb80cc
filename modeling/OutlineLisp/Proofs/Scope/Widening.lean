import OutlineLisp.Proofs.Scope.Identity

/-!
# Scopes with one more name

A store can have the same scopes as another, but for one name that one of them binds besides. If the
scope has no parent, then a name that means something in the smaller store means the same in the
larger one: where the name that was added is found, the smaller store has nothing left to look in.
Inner scopes may still bind the same name, as parameters do.

The other identities may differ, too, since the added value has an identity of its own.

## Main definitions

* `Store.Widened`: a store in which one scope binds one more name.
* `Store.SameContentsBeside`: stores with the same contents beside one name.

## Main results

* `Store.Widened.lookup?`: names that mean something mean the same, up to identities.
* `Store.Widened.child`, `Store.Widened.define`: such stores grow and change alike.
* `Store.Below.widened`: a store is widened by binding a name that it does not bind.
-/

namespace OutlineLisp

namespace Store

variable {scope : ScopeId} {y : String} {π : ℕ → ℕ} {st st' : Store}

/-- Whether a store is another one in which a scope without a parent binds one more name, and which
has other identities. -/
structure Widened (scope : ScopeId) (y : String) (π : ℕ → ℕ) (st st' : Store) : Prop where
  scope_lt : scope < st.size
  outermost : st.parent? scope = none
  unbound : st.bound? scope y = none
  size : st'.size = st.size
  parent : ∀ id, st'.parent? id = st.parent? id
  bound : ∀ id x, ¬(id = scope ∧ x = y) → st'.bound? id x = (st.bound? id x).map (Value.renumber π)

namespace Widened

/-- **Names mean the same, up to identities,** unless it is the added name and it meant nothing. The
induction is on the number of the scope, since its parent is older. -/
theorem lookup? (h : st.Widened scope y π st') {id : ScopeId} {x : String}
    (hx : x = y → st.lookup? id x ≠ none) :
    st'.lookup? id x = (st.lookup? id x).map (Value.renumber π) := by
  induction id using Nat.strongRecOn with
  | _ id ih =>
    by_cases hplace : id = scope ∧ x = y
    · -- The smaller store has nothing left to look in.
      obtain ⟨rfl, rfl⟩ := hplace
      refine absurd ?_ (hx rfl)
      rw [lookup?_eq_or, h.unbound, h.outermost]
      rfl
    · rw [lookup?_eq_or] at hx
      rw [lookup?_eq_or, lookup?_eq_or st, h.bound id x hplace, h.parent]
      cases hb : st.bound? id x with
      | some v => rfl
      | none =>
        cases hp : st.parent? id with
        | none => rfl
        | some p =>
          rw [hb, hp] at hx
          exact ih p (lt_of_parent? hp) hx

/-- Scopes that are made for the calls of two closures that differ only in identities. -/
theorem child (h : st.Widened scope y π st') (p : ScopeId) (bs : List (String × Value)) :
    (st.child p bs).Widened scope y π (st'.child p (bs.map (Prod.map id (Value.renumber π)))) where
  scope_lt := by
    rw [size_child]
    exact Nat.lt_succ_of_lt h.scope_lt
  outermost := by rw [parent?_child_eq_ite, if_neg (Nat.ne_of_lt h.scope_lt), h.outermost]
  unbound := by rw [bound?_child, if_neg (Nat.ne_of_lt h.scope_lt), h.unbound]
  size := by rw [size_child, size_child, h.size]
  parent id := by rw [parent?_child_eq_ite, parent?_child_eq_ite, h.size, h.parent]
  bound id x hplace := by
    rw [bound?_child, bound?_child, h.size, h.bound id x hplace, ← List.map_reverse, lookup_map]
    split <;> rfl

/-- Any scope may bind another name. -/
theorem define (h : st.Widened scope y π st') {id : ScopeId} (hid : id < st.size) {name : String}
    (hname : name ≠ y) (v : Value) :
    (st.define id name v).Widened scope y π (st'.define id name (v.renumber π)) where
  scope_lt := by
    rw [size_define]
    exact h.scope_lt
  outermost := by rw [parent?_define, h.outermost]
  unbound := by rw [bound?_define hid, if_neg fun hy => hname hy.2.symm, h.unbound]
  size := by rw [size_define, size_define, h.size]
  parent i := by rw [parent?_define, parent?_define, h.parent]
  bound i x hplace := by
    rw [bound?_define hid, bound?_define (h.size ▸ hid), h.bound i x hplace]
    split <;> rfl

end Widened

/-- **A store is widened by binding a name** that a scope without a parent does not bind. What
becomes of identities that the store does not have does not matter. -/
theorem Below.widened {n : ℕ} (h : st.Below n) (hπ : ∀ i < n, π i = i) (hscope : scope < st.size)
    (hparent : st.parent? scope = none) (hy : st.bound? scope y = none) (v : Value) :
    st.Widened scope y π (st.define scope y v) where
  scope_lt := hscope
  outermost := hparent
  unbound := hy
  size := size_define st scope y v
  parent id := parent?_define st scope y v id
  bound id x hplace := by
    rw [bound?_define hscope, if_neg hplace]
    exact (h.renumbered hπ).bound id x

/-! ### Contents -/

/-- Whether two stores have the same scopes, and these bind the same names to values with the same
contents, but for one name in one scope. -/
structure SameContentsBeside (scope : ScopeId) (y : String) (st st' : Store) : Prop where
  size : st'.size = st.size
  parent : ∀ id, st'.parent? id = st.parent? id
  bound : ∀ id x, ¬(id = scope ∧ x = y) →
    (st'.bound? id x).map Value.contents = (st.bound? id x).map Value.contents

theorem Widened.sameContentsBeside (h : st.Widened scope y π st') :
    st.SameContentsBeside scope y st' where
  size := h.size
  parent := h.parent
  bound id x hplace := by
    rw [h.bound id x hplace, Option.map_map]
    exact congrArg (fun f => (st.bound? id x).map f) (funext (Value.contents_renumber π))

end Store

end OutlineLisp
