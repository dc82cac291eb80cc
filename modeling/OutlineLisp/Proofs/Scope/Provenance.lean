import OutlineLisp.Proofs.Scope.References
import OutlineLisp.Proofs.Value.Provenance

/-!
# What can be reached

Values are reached from the bindings of scopes and from other values at hand, the *roots*. A value
is known if it is plain or can be reached. Looking a name up leads to nothing but what can be
reached, and what scopes bind after an operation on them is what they have bound before, or what
the operation has bound.

## Main definitions

* `Store.Reaches`: what can be reached.
* `Store.Knows`: what is plain or can be reached.

## Main results

* `Store.reaches_of_lookup?`: what names mean can be reached.
* `Store.knows_of_bound?_child`, `Store.knows_of_bound?_define`: what scopes bind afterwards.
* `Params.lookup_reverse_bindSlots`: the argument that a parameter takes.
-/

namespace OutlineLisp

namespace Store

variable {st : Store} {roots roots' : List Value} {u v : Value}

/-- Whether a value can be reached: a root holds it, or something holds it that a scope binds. -/
def Reaches (st : Store) (roots : List Value) (u : Value) : Prop :=
  (∃ v ∈ roots, v.Holds u) ∨ ∃ id x v, st.bound? id x = some v ∧ v.Holds u

/-- Whether a value is known: it is plain or can be reached. -/
def Knows (st : Store) (roots : List Value) (v : Value) : Prop :=
  v.identity? = none ∨ st.Reaches roots v

theorem reaches_of_mem (h : v ∈ roots) : st.Reaches roots v := .inl ⟨v, h, .self v⟩

theorem knows_of_mem (h : v ∈ roots) : st.Knows roots v := .inr (reaches_of_mem h)

theorem Reaches.holds (h : st.Reaches roots v) (hu : v.Holds u) : st.Reaches roots u := by
  rcases h with ⟨w, hmem, hw⟩ | ⟨id, x, w, hbound, hw⟩
  · exact .inl ⟨w, hmem, hw.trans hu⟩
  · exact .inr ⟨id, x, w, hbound, hw.trans hu⟩

/-- What a known value holds is known. -/
theorem Knows.holds (h : st.Knows roots v) (hu : v.Holds u) : st.Knows roots u := by
  rcases h with hplain | h
  · exact .inl (hu.eq_of_plain hplain ▸ hplain)
  · exact .inr (h.holds hu)

theorem Reaches.mono (h : st.Reaches roots u) (hroots : roots ⊆ roots') : st.Reaches roots' u :=
  h.imp_left fun ⟨v, hmem, hv⟩ => ⟨v, hroots hmem, hv⟩

theorem reaches_cons (h : st.Reaches (v :: roots) u) : v.Holds u ∨ st.Reaches roots u := by
  rcases h with ⟨w, hmem, hw⟩ | hbound
  · rcases List.mem_cons.1 hmem with rfl | hmem
    · exact .inl hw
    · exact .inr (.inl ⟨w, hmem, hw⟩)
  · exact .inr (.inr hbound)

/-- What a scope binds can be reached. -/
theorem reaches_of_bound? {id : ScopeId} {x : String} (h : st.bound? id x = some v)
    (roots : List Value) : st.Reaches roots v := .inr ⟨id, x, v, h, .self v⟩

/-- **What a name means** can be reached. -/
theorem reaches_of_lookup? {id : ScopeId} {x : String} (h : st.lookup? id x = some v)
    (roots : List Value) : st.Reaches roots v := by
  obtain ⟨i, hi⟩ := exists_bound?_of_lookup? h
  exact reaches_of_bound? hi roots

/-- All that can be reached is known if the roots and all bindings are. -/
theorem knows_of_reaches {st' : Store} (hroots : ∀ v ∈ roots', st.Knows roots v)
    (hbound : ∀ id x v, st'.bound? id x = some v → st.Knows roots v) (h : st'.Reaches roots' u) :
    st.Knows roots u := by
  rcases h with ⟨v, hmem, hv⟩ | ⟨id, x, v, hx, hv⟩
  · exact (hroots v hmem).holds hv
  · exact (hbound id x v hx).holds hv

/-! ### What scopes bind after an operation -/

/-- A new scope binds what it is made with. -/
theorem knows_of_bound?_child {p : ScopeId} {bindings : List (String × Value)}
    (hbindings : ∀ b ∈ bindings, st.Knows roots b.2) (id : ScopeId) (x : String) (v : Value)
    (h : (st.child p bindings).bound? id x = some v) : st.Knows roots v := by
  rw [bound?_child] at h
  split at h
  · exact hbindings _ (mem_of_lookup_reverse h)
  · exact .inr (reaches_of_bound? h roots)

/-- A definition binds a value and nothing else. -/
theorem of_bound?_define {id i : ScopeId} {name x : String}
    (h : (st.define id name v).bound? i x = some u) : u = v ∨ st.bound? i x = some u := by
  by_cases hid : id < st.size
  · rw [bound?_define hid] at h
    split at h
    · exact .inl (Option.some.inj h).symm
    · exact .inr h
  · rw [bound?, scope?_define] at h
    split at h
    · next hi =>
      rw [hi, scope?_eq_none (Nat.le_of_not_lt hid)] at h
      cases h
    · exact .inr h

theorem knows_of_bound?_define (hv : st.Knows roots v) (id : ScopeId) (name : String) (i : ScopeId)
    (x : String) (u : Value) (h : (st.define id name v).bound? i x = some u) :
    st.Knows roots u := by
  rcases of_bound?_define h with rfl | h
  · exact hv
  · exact .inr (reaches_of_bound? h roots)

/-- A scope that drops its bindings leaves those of the others. -/
theorem knows_of_bound?_clear (roots : List Value) (id i : ScopeId) (x : String) (u : Value)
    (h : (st.clear id).bound? i x = some u) : st.Knows roots u := by
  rw [bound?_clear] at h
  split at h
  · cases h
  · exact .inr (reaches_of_bound? h roots)

end Store

/-! ### Parameters -/

namespace Params

theorem knows_of_mem_bind {st : Store} {roots : List Value} {ps : Params} {args : List Value}
    (h : ∀ v ∈ args, st.Knows roots v) : ∀ b ∈ ps.bind args, st.Knows roots b.2 := by
  intro b hb
  rcases of_mem_bind hb with hnil | hmem
  · exact .inl (by rw [hnil]; rfl)
  · exact h b.2 hmem

theorem lookup_reverse_bindSlots_eq_none {slots : List (Option String)} {x : String}
    (h : some x ∉ slots) (args : List Value) : (bindSlots slots args).reverse.lookup x = none := by
  induction slots generalizing args with
  | nil => rfl
  | cons slot slots ih =>
    have hrest := ih (fun hmem => h (List.mem_cons_of_mem slot hmem)) args.tail
    cases slot with
    | none => exact hrest
    | some name =>
      have hne : (x == name) = false := by
        refine beq_eq_false_iff_ne.2 ?_
        rintro rfl
        exact h List.mem_cons_self
      rw [bindSlots, List.reverse_cons, List.lookup_append, hrest, List.lookup_cons, hne]
      rfl

/-- **The argument that a parameter takes:** that of the last slot with its name. -/
theorem lookup_reverse_bindSlots {slots : List (Option String)} {x : String} {k : ℕ}
    (hk : slots[k]? = some (some x)) (hlast : some x ∉ slots.drop (k + 1)) (args : List Value) :
    (bindSlots slots args).reverse.lookup x = some (args[k]?.getD .nil) := by
  -- Later slots are looked up first, so the first one counts only if no other has the name.
  induction slots generalizing k args with
  | nil => cases hk
  | cons slot slots ih =>
    cases k with
    | zero =>
      obtain rfl : slot = some x := Option.some.inj hk
      have hrest : (bindSlots slots args.tail).reverse.lookup x = none :=
        lookup_reverse_bindSlots_eq_none hlast args.tail
      rw [bindSlots, List.reverse_cons, List.lookup_append, hrest, List.lookup_cons,
        beq_self_eq_true, ← List.head?_eq_getElem?, List.headD_eq_head?_getD]
      rfl
    | succ k =>
      have hrest := ih hk hlast args.tail
      rw [List.getElem?_tail] at hrest
      cases slot with
      | none => exact hrest
      | some name => rw [bindSlots, List.reverse_cons, List.lookup_append, hrest, Option.some_or]

end Params

end OutlineLisp
