import OutlineLisp.Proofs.Scope.Growth
import OutlineLisp.Proofs.Value.Identity

/-!
# Scopes with other identities

Two stores can have the same scopes that bind the same names to values with other identities. How
the bindings of a scope are ordered is left open, since a name means its newest binding only.

## Main definitions

* `Store.Renumbered`: stores that differ only in identities and in the order of bindings.
* `Value.Below`, `Store.Below`: values and stores whose identities are below a number.

## Main results

* `Store.Renumbered.lookup?`: names mean values that differ only in identities.
* `Store.Renumbered.child`, `Store.Renumbered.define`: such stores grow and change alike.
* `Store.Renumbered.define_swap`: two names may be bound in either order.
-/

namespace OutlineLisp

variable {π σ : ℕ → ℕ} {st st' st'' : Store}

namespace Store

/-- Whether a store is another one with other identities: it has the same scopes, and they bind the
same names. -/
structure Renumbered (π : ℕ → ℕ) (st st' : Store) : Prop where
  size : st'.size = st.size
  parent : ∀ id, st'.parent? id = st.parent? id
  bound : ∀ id x, st'.bound? id x = (st.bound? id x).map (Value.renumber π)

theorem Renumbered.refl (st : Store) : st.Renumbered id st where
  size := rfl
  parent _ := rfl
  bound i x := by cases st.bound? i x <;> simp

theorem Renumbered.trans (h : st.Renumbered π st') (h' : st'.Renumbered σ st'') :
    st.Renumbered (σ ∘ π) st'' where
  size := h'.size.trans h.size
  parent id := (h'.parent id).trans (h.parent id)
  bound id x := by
    rw [h'.bound, h.bound, Option.map_map]
    exact congrArg (fun f => (st.bound? id x).map f) (funext (Value.renumber_comp π σ))

/-- **Names mean the same, up to identities.** -/
theorem Renumbered.lookup? (h : st.Renumbered π st') (id : ScopeId) (x : String) :
    st'.lookup? id x = (st.lookup? id x).map (Value.renumber π) := by
  induction id using Nat.strongRecOn with
  | _ id ih =>
    rw [lookup?_eq_or, lookup?_eq_or st, h.bound, h.parent, Option.map_or]
    congr 1
    cases hp : st.parent? id with
    | none => rfl
    | some p => exact ih p (lt_of_parent? hp)

theorem Renumbered.lookup (h : st.Renumbered π st') (id : ScopeId) (x : String) :
    st'.lookup id x = (st.lookup id x).map (Value.renumber π) := by
  rw [Store.lookup, Store.lookup, h.lookup?]
  cases st.lookup? id x <;> rfl

/-! ### Making a scope -/

theorem lookup_map (f : Value → Value) (bs : List (String × Value)) (x : String) :
    (bs.map (Prod.map id f)).lookup x = (bs.lookup x).map f := by
  induction bs with
  | nil => rfl
  | cons b bs ih =>
    rw [List.map_cons, List.lookup_cons, List.lookup_cons]
    change (match x == b.1 with | true => some (f b.2) | false => _) = _
    cases x == b.1 with
    | true => rfl
    | false => exact ih

/-- Scopes that are made for the calls of two closures that differ only in identities. -/
theorem Renumbered.child (h : st.Renumbered π st') (p : ScopeId) (bs : List (String × Value)) :
    (st.child p bs).Renumbered π (st'.child p (bs.map (Prod.map id (Value.renumber π)))) where
  size := by rw [size_child, size_child, h.size]
  parent id := by rw [parent?_child_eq_ite, parent?_child_eq_ite, h.size, h.parent]
  bound id x := by
    rw [bound?_child, bound?_child, h.size, h.bound, ← List.map_reverse, lookup_map]
    split <;> rfl

/-! ### Binding a name -/

theorem Renumbered.define (h : st.Renumbered π st') {id : ScopeId} (hid : id < st.size)
    (name : String) (v : Value) :
    (st.define id name v).Renumbered π (st'.define id name (v.renumber π)) where
  size := by rw [size_define, size_define, h.size]
  parent i := by rw [parent?_define, parent?_define, h.parent]
  bound i x := by
    rw [bound?_define hid, bound?_define (h.size ▸ hid), h.bound]
    split <;> rfl

/-- Two names may be bound in either order. -/
theorem Renumbered.define_swap (h : st.Renumbered π st') {id : ScopeId} (hid : id < st.size)
    {name name' : String} (hne : name ≠ name') (v v' : Value) :
    ((st.define id name v).define id name' v').Renumbered π
      ((st'.define id name' (v'.renumber π)).define id name (v.renumber π)) where
  size := by simp only [size_define, h.size]
  parent i := by simp only [parent?_define, h.parent]
  bound i x := by
    have hid' : id < st'.size := h.size ▸ hid
    rw [bound?_define (by rwa [size_define]), bound?_define hid',
      bound?_define (by rwa [size_define]), bound?_define hid, h.bound]
    by_cases hx : i = id ∧ x = name
    · rw [if_pos hx, if_neg fun hx' => hne (hx.2.symm.trans hx'.2), if_pos hx]
      rfl
    · rw [if_neg hx, if_neg hx]
      split <;> rfl

end Store

/-! ### Contents -/

/-- Whether two stores have the same scopes, and these bind the same names to values with the same
contents. -/
structure Store.SameContents (st st' : Store) : Prop where
  size : st'.size = st.size
  parent : ∀ id, st'.parent? id = st.parent? id
  bound : ∀ id x, (st'.bound? id x).map Value.contents = (st.bound? id x).map Value.contents

theorem Store.Renumbered.sameContents (h : st.Renumbered π st') : st.SameContents st' where
  size := h.size
  parent := h.parent
  bound id x := by
    rw [h.bound, Option.map_map]
    exact congrArg (fun f => (st.bound? id x).map f) (funext (Value.contents_renumber π))

/-! ### Identities below a number -/

/-- Whether all identities in a value are below a number, so that it does not matter what becomes of
the others. -/
def Value.Below (n : ℕ) (v : Value) : Prop := ∀ π : ℕ → ℕ, (∀ i < n, π i = i) → v.renumber π = v

theorem Value.Below.mono {v : Value} {m n : ℕ} (h : v.Below m) (hle : m ≤ n) : v.Below n :=
  fun π hπ => h π fun i hi => hπ i (Nat.lt_of_lt_of_le hi hle)

/-- Whether all identities of the values that a store binds are below a number. -/
def Store.Below (n : ℕ) (st : Store) : Prop := ∀ id x v, st.bound? id x = some v → v.Below n

namespace Store.Below

variable {n : ℕ}

/-- What becomes of identities that a store does not have does not matter to it. -/
theorem renumbered (h : st.Below n) (hπ : ∀ i < n, π i = i) : st.Renumbered π st where
  size := rfl
  parent _ := rfl
  bound id x := by
    cases hv : st.bound? id x with
    | none => rfl
    | some v => exact congrArg some (h id x v hv π hπ).symm

theorem define (h : st.Below n) {id : ScopeId} (hid : id < st.size) (name : String) {v : Value}
    (hv : v.Below (n + 1)) : (st.define id name v).Below (n + 1) := by
  intro i x u hu
  rw [Store.bound?_define hid] at hu
  split at hu
  · obtain rfl := Option.some.inj hu
    exact hv
  · exact (h i x u hu).mono (Nat.le_succ n)

end Store.Below

end OutlineLisp
