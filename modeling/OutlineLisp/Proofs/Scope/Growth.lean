import OutlineLisp.Scope.Store

/-!
# Stores that grow

A store grows when a scope is made: the scopes that are there stay as they are, under their numbers,
and the new one comes last. What a name means in a scope depends only on that scope and on older
ones, so growth does not change it.

`Store.define` and `Store.clear` are the operations that do change a scope, and they are described
here, too.

## Main definitions

* `Store.KeptIn`: all scopes of a store are in another as they were.

## Main results

* `Store.keptIn_child`: making a scope keeps all others.
* `Store.KeptIn.lookup?_eq`: names mean the same in scopes that are kept.
* `Store.lookup?_child_self`: what names mean in a scope that has just been made.
* `Store.bound?_define`, `Store.bound?_clear`: what scopes bind after a definition, and after one of
  them has dropped its bindings.
-/

namespace OutlineLisp

namespace Store

variable {st st' st'' : Store}

/-! ### Scopes that are not there -/

theorem scope?_eq_none {id : ScopeId} (h : st.size ≤ id) : st.scope? id = none :=
  Array.getElem?_eq_none h

theorem lt_size_of_scope? {id : ScopeId} {s : Scope} (h : st.scope? id = some s) : id < st.size :=
  (Array.getElem?_eq_some_iff.1 h).1

theorem exists_scope? {id : ScopeId} (h : id < st.size) : ∃ s, st.scope? id = some s :=
  ⟨_, Array.getElem?_eq_getElem h⟩

/-- The first scope has no parent. -/
theorem parent?_zero (st : Store) : st.parent? 0 = none := by
  cases h : st.parent? 0 with
  | none => rfl
  | some p => exact absurd (lt_of_parent? h) (Nat.not_lt_zero p)

/-! ### What a name means, one scope at a time -/

/-- A name means what the scope binds it to, or else what it means in the parent. -/
theorem lookup?_eq_or (st : Store) (id : ScopeId) (name : String) :
    st.lookup? id name
      = (st.bound? id name).or ((st.parent? id).bind fun p => st.lookup? p name) := by
  rw [lookup?]
  cases st.bound? id name with
  | some v => rfl
  | none =>
    simp only [Option.none_or]
    split
    · next p hp => rw [hp, Option.bind_some]
    · next hp => rw [hp, Option.bind_none]

theorem lookup?_eq_none {id : ScopeId} (h : st.size ≤ id) (name : String) :
    st.lookup? id name = none := by
  rw [lookup?_eq_or, bound?, parent?, scope?_eq_none h]
  rfl

theorem lt_size_of_lookup? {id : ScopeId} {name : String} {v : Value}
    (h : st.lookup? id name = some v) : id < st.size := by
  refine Nat.lt_of_not_le fun hle => ?_
  rw [lookup?_eq_none hle] at h
  cases h

theorem lookup?_of_bound? {id : ScopeId} {name : String} {v : Value}
    (h : st.bound? id name = some v) : st.lookup? id name = some v := by
  rw [lookup?_eq_or, h, Option.some_or]

theorem lt_size_of_bound? {id : ScopeId} {x : String} {v : Value} (h : st.bound? id x = some v) :
    id < st.size := lt_size_of_lookup? (lookup?_of_bound? h)

/-- A meaning comes from some scope that binds the name. -/
theorem exists_bound?_of_lookup? {id : ScopeId} {name : String} {v : Value}
    (h : st.lookup? id name = some v) : ∃ i, st.bound? i name = some v := by
  induction id using Nat.strongRecOn with
  | _ id ih =>
    rw [lookup?_eq_or, Option.or_eq_some_iff] at h
    rcases h with hb | ⟨-, hp⟩
    · exact ⟨id, hb⟩
    · obtain ⟨p, hp, hv⟩ := Option.bind_eq_some_iff.1 hp
      exact ih p (lt_of_parent? hp) hv

/-! ### Stores that keep the scopes of others -/

/-- Whether every scope of a store is in another, under its number and as it was. -/
def KeptIn (st st' : Store) : Prop := ∀ id s, st.scope? id = some s → st'.scope? id = some s

theorem KeptIn.refl (st : Store) : st.KeptIn st := fun _ _ h => h

theorem KeptIn.trans (h : st.KeptIn st') (h' : st'.KeptIn st'') : st.KeptIn st'' :=
  fun id s hs => h' id s (h id s hs)

theorem KeptIn.size_le (h : st.KeptIn st') : st.size ≤ st'.size := by
  refine Nat.le_of_not_lt fun hlt => ?_
  obtain ⟨s, hs⟩ := exists_scope? hlt
  exact Nat.lt_irrefl _ (lt_size_of_scope? (h _ s hs))

theorem KeptIn.scope?_eq (h : st.KeptIn st') {id : ScopeId} (hid : id < st.size) :
    st'.scope? id = st.scope? id := by
  obtain ⟨s, hs⟩ := exists_scope? hid
  rw [hs, h id s hs]

theorem KeptIn.bound?_eq (h : st.KeptIn st') {id : ScopeId} (hid : id < st.size) (name : String) :
    st'.bound? id name = st.bound? id name := by
  rw [bound?, bound?, h.scope?_eq hid]

/-- A name means the same in a scope that is kept. The induction is on the number of the scope,
since its parent is older. -/
theorem KeptIn.lookup?_eq (h : st.KeptIn st') {id : ScopeId} (hid : id < st.size)
    (name : String) : st'.lookup? id name = st.lookup? id name := by
  induction id using Nat.strongRecOn with
  | _ id ih =>
    rw [lookup?_eq_or, lookup?_eq_or st, h.bound?_eq hid, parent?, parent?, h.scope?_eq hid]
    congr 1
    cases hp : (st.scope? id).bind Scope.parent with
    | none => rfl
    | some p =>
      have hlt : p < id := lt_of_parent? hp
      exact ih p hlt (Nat.lt_trans hlt hid)

/-- What a name means stays, whatever the number of the scope. -/
theorem KeptIn.lookup?_of_some (h : st.KeptIn st') {id : ScopeId} {name : String} {v : Value}
    (hv : st.lookup? id name = some v) : st'.lookup? id name = some v := by
  rw [h.lookup?_eq (lt_size_of_lookup? hv), hv]

/-! ### Making a scope -/

/-- The scope that is made inside another. -/
theorem exists_scope?_child (st : Store) (p : ScopeId) (bindings : List (String × Value)) :
    ∃ parent, (parent = some p ∧ p < st.size ∨ parent = none ∧ st.size ≤ p) ∧
      ∀ id, (st.child p bindings).scope? id
        = if id = st.size then some ⟨parent, bindings.reverse⟩ else st.scope? id := by
  by_cases h : p < st.size
  · refine ⟨some p, .inl ⟨rfl, h⟩, fun id => ?_⟩
    rw [child, dif_pos h]
    simp only [scope?, size, Array.getElem?_push, Scope.defineAll, List.append_nil]
    rfl
  · refine ⟨none, .inr ⟨rfl, Nat.not_lt.1 h⟩, fun id => ?_⟩
    rw [child, dif_neg h]
    simp only [root, scope?, size, Array.getElem?_push, Scope.defineAll, List.append_nil]
    rfl

/-- The scopes after one has been made inside another that exists. -/
theorem scope?_child {p : ScopeId} (hp : p < st.size) (bindings : List (String × Value))
    (id : ScopeId) :
    (st.child p bindings).scope? id
      = if id = st.size then some ⟨some p, bindings.reverse⟩ else st.scope? id := by
  obtain ⟨parent, ⟨rfl, -⟩ | ⟨-, hle⟩, h⟩ := exists_scope?_child st p bindings
  · exact h id
  · exact absurd hp (Nat.not_lt.2 hle)

@[simp] theorem size_child (st : Store) (p : ScopeId) (bindings : List (String × Value)) :
    (st.child p bindings).size = st.size + 1 := by
  rw [child]
  split <;> simp [root, size]

/-- Making a scope keeps all others. -/
theorem keptIn_child (st : Store) (p : ScopeId) (bindings : List (String × Value)) :
    st.KeptIn (st.child p bindings) := by
  intro id s hs
  obtain ⟨parent, -, h⟩ := exists_scope?_child st p bindings
  rw [h, if_neg (Nat.ne_of_lt (lt_size_of_scope? hs)), hs]

/-- In a scope that has just been made, a name means what it has just been bound to, or else what
it means outside. -/
theorem lookup?_child_self (st : Store) (p : ScopeId) (bindings : List (String × Value))
    (name : String) :
    (st.child p bindings).lookup? st.size name
      = (bindings.reverse.lookup name).or (st.lookup? p name) := by
  obtain ⟨parent, hparent, h⟩ := exists_scope?_child st p bindings
  rw [lookup?_eq_or, bound?, parent?, h, if_pos rfl, Option.bind_some, Option.bind_some]
  change (bindings.reverse.lookup name).or (parent.bind _) = _
  rcases hparent with ⟨rfl, hp⟩ | ⟨rfl, hp⟩
  · rw [Option.bind_some, (keptIn_child st p bindings).lookup?_eq hp]
  · rw [Option.bind_none, lookup?_eq_none hp]

/-- What scopes bind after one has been made. -/
theorem bound?_child (st : Store) (p : ScopeId) (bindings : List (String × Value)) (id : ScopeId)
    (name : String) :
    (st.child p bindings).bound? id name
      = if id = st.size then bindings.reverse.lookup name else st.bound? id name := by
  obtain ⟨parent, -, h⟩ := exists_scope?_child st p bindings
  rw [bound?, h]
  split <;> rfl

/-- The parents of scopes after one has been made, inside another or not. -/
theorem parent?_child_eq_ite (st : Store) (p : ScopeId) (bindings : List (String × Value))
    (id : ScopeId) :
    (st.child p bindings).parent? id
      = if id = st.size then if p < st.size then some p else none else st.parent? id := by
  obtain ⟨parent, hparent, h⟩ := exists_scope?_child st p bindings
  rw [parent?, h]
  split
  · rcases hparent with ⟨rfl, hp⟩ | ⟨rfl, hp⟩
    · rw [if_pos hp]
      rfl
    · rw [if_neg (Nat.not_lt.2 hp)]
      rfl
  · rfl

/-! ### Binding a name -/

@[simp] theorem size_define (st : Store) (id : ScopeId) (name : String) (v : Value) :
    (st.define id name v).size = st.size := Array.size_modify

/-- The scopes after a definition. -/
theorem scope?_define (st : Store) (id : ScopeId) (name : String) (v : Value) (i : ScopeId) :
    (st.define id name v).scope? i
      = if i = id then (st.scope? i).map fun s => s.define name v else st.scope? i := by
  rw [scope?, define, Array.getElem?_modify]
  by_cases hi : i = id
  · rw [if_pos hi, if_pos hi.symm]
    rfl
  · rw [if_neg hi, if_neg (Ne.symm hi)]
    rfl

/-- A definition changes no parent. -/
theorem parent?_define (st : Store) (id : ScopeId) (name : String) (v : Value) (i : ScopeId) :
    (st.define id name v).parent? i = st.parent? i := by
  rw [parent?, scope?_define]
  split
  · rw [Option.bind_map]
    rfl
  · rfl

/-- A definition changes what one scope binds one name to. -/
theorem bound?_define {id : ScopeId} (hid : id < st.size) (name : String) (v : Value)
    (i : ScopeId) (x : String) :
    (st.define id name v).bound? i x = if i = id ∧ x = name then some v else st.bound? i x := by
  rw [bound?, scope?_define]
  by_cases hi : i = id
  · subst hi
    obtain ⟨s, hs⟩ := exists_scope? hid
    rw [if_pos rfl, bound?, hs, Option.map_some, Option.bind_some, Option.bind_some]
    by_cases hx : x = name
    · simp [Scope.find?, Scope.define, hx]
    · simp [Scope.find?, Scope.define, hx, List.lookup_cons, beq_eq_false_iff_ne.2 hx]
  · rw [if_neg hi, if_neg fun h => hi h.1]
    rfl

/-! ### Dropping bindings -/

@[simp] theorem size_clear (st : Store) (id : ScopeId) : (st.clear id).size = st.size :=
  Array.size_modify

/-- The scopes after one has dropped its bindings. -/
theorem scope?_clear (st : Store) (id i : ScopeId) :
    (st.clear id).scope? i = if i = id then (st.scope? i).map Scope.clear else st.scope? i := by
  rw [scope?, clear, Array.getElem?_modify]
  by_cases hi : i = id
  · rw [if_pos hi, if_pos hi.symm]
    rfl
  · rw [if_neg hi, if_neg (Ne.symm hi)]
    rfl

/-- No parent is changed. -/
theorem parent?_clear (st : Store) (id i : ScopeId) : (st.clear id).parent? i = st.parent? i := by
  rw [parent?, scope?_clear]
  split
  · rw [Option.bind_map]
    rfl
  · rfl

/-- One scope binds nothing any more, and the others bind what they did. -/
theorem bound?_clear (st : Store) (id i : ScopeId) (x : String) :
    (st.clear id).bound? i x = if i = id then none else st.bound? i x := by
  rw [bound?, scope?_clear]
  split
  · cases st.scope? i <;> rfl
  · rfl

end Store

end OutlineLisp
