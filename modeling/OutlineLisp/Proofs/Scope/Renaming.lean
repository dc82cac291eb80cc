import Mathlib.Data.List.Forall2
import OutlineLisp.Proofs.Form.Renaming
import OutlineLisp.Proofs.Scope.Growth

/-!
# Scopes under other names

Two stores can have the same scopes, each bound to the same values in the same order, but under
other names. What a name of one store is called in the other is then read off the scopes: the
innermost binding of the name has a place, and the binding at that place has another name. A closure
keeps its scope, and so its function is compared with another as the names of that scope are.

## Main definitions

* `Store.corresponds`: what names of a scope are called in another store.
* `Value.Alpha`, `Store.Alpha`: values and stores that differ only in the choice of names.

## Main results

* `Store.Alpha.lookup?`: names that correspond mean the same.
* `Store.Alpha.child`, `Store.corresponds_child`: scopes made for the calls of two closures.
-/

namespace OutlineLisp

/-! ### Parameters and arguments -/

namespace Params

variable {P : Value → Value → Prop}

theorem forall₂_bindSlots (hnil : P .nil .nil) (τ : String → String) {slots : List (Option String)}
    {args args' : List Value} (h : List.Forall₂ P args args') :
    List.Forall₂ (fun b b' => P b.2 b'.2) (bindSlots slots args)
      (bindSlots (slots.map (Option.map τ)) args') := by
  induction slots generalizing args args' with
  | nil => exact .nil
  | cons slot slots ih =>
    have htail : List.Forall₂ P args.tail args'.tail := by
      cases h with
      | nil => exact .nil
      | cons _ h => exact h
    cases slot with
    | none => exact ih htail
    | some name =>
      refine .cons ?_ (ih htail)
      cases h with
      | nil => exact hnil
      | cons h _ => exact h

/-- Parameters take the same arguments under other names. -/
theorem forall₂_bind (hnil : P .nil .nil) (τ : String → String) (ps : Params)
    {args args' : List Value} (h : List.Forall₂ P args args') :
    List.Forall₂ (fun b b' => P b.2 b'.2) (ps.bind args) ((ps.rename τ).bind args') := by
  rw [bind, bind, slots_rename]
  exact forall₂_bindSlots hnil τ h

/-- What a call binds is paired as the parameters are. -/
theorem zip_bind (τ : String → String) (ps : Params) (args args' : List Value) :
    ((ps.bind args).reverse.map Prod.fst).zip (((ps.rename τ).bind args').reverse.map Prod.fst)
      = ps.pairs τ := by
  rw [List.map_reverse, List.map_reverse, map_fst_bind, map_fst_bind, names_rename,
    ← List.map_reverse, pairs]
  simpa using List.zip_map' (f := id) (g := τ) (l := ps.names.reverse)

end Params

/-- Names that mean the same beneath the names of two runs of bindings, whose values are related
place by place, have related values, or none. -/
theorem lookup_of_beneath {P : Value → Value → Prop} {R : String → String → Prop}
    {bs bs' : List (String × Value)} (h : List.Forall₂ (fun b b' => P b.2 b'.2) bs bs')
    {x x' : String} (hx : beneath R ((bs.map Prod.fst).zip (bs'.map Prod.fst)) x x') :
    (∃ v v', bs.lookup x = some v ∧ bs'.lookup x' = some v' ∧ P v v') ∨
      bs.lookup x = none ∧ bs'.lookup x' = none ∧ R x x' := by
  induction h with
  | nil => exact .inr ⟨rfl, rfl, hx⟩
  | @cons b b' _ _ hb _ ih =>
    rcases hx with ⟨rfl, rfl⟩ | ⟨hne, hne', hx⟩
    · exact .inl ⟨b.2, b'.2, List.lookup_cons_self, List.lookup_cons_self, hb⟩
    · rw [List.lookup_cons, List.lookup_cons, beq_eq_false_iff_ne.2 hne,
        beq_eq_false_iff_ne.2 hne']
      exact ih hx

namespace Store

variable {st st' st₂ st₂' : Store}

/-! ### Names of two stores -/

/-- The bindings of a scope, the newest first. -/
def bindings (st : Store) (id : ScopeId) : List (String × Value) :=
  (st.scope? id).elim [] Scope.bindings

theorem bound?_eq_lookup (st : Store) (id : ScopeId) (x : String) :
    st.bound? id x = (st.bindings id).lookup x := by
  rw [bound?, bindings]
  cases st.scope? id <;> rfl

/-- The names of a scope paired with those of the scope with the same number in another store. -/
def pairs (st st' : Store) (id : ScopeId) : List (String × String) :=
  ((st.bindings id).map Prod.fst).zip ((st'.bindings id).map Prod.fst)

/-- Whether a name in a scope is called by another in another store. -/
def corresponds (st st' : Store) (id : ScopeId) : String → String → Prop :=
  match _h : st.parent? id with
  | some p => beneath (st.corresponds st' p) (st.pairs st' id)
  | none => beneath Eq (st.pairs st' id)
termination_by id
decreasing_by exact lt_of_parent? ‹_›

theorem corresponds_eq (st st' : Store) (id : ScopeId) :
    st.corresponds st' id
      = beneath ((st.parent? id).elim Eq fun p => st.corresponds st' p) (st.pairs st' id) := by
  rw [corresponds]
  split
  · next p h => rw [h]; rfl
  · next h => rw [h]; rfl

/-- In one and the same store a name is called by itself. -/
theorem corresponds_self (st : Store) (id : ScopeId) (x : String) : st.corresponds st id x x := by
  induction id using Nat.strongRecOn generalizing x with
  | _ id ih =>
    have hpairs : st.pairs st id = ((st.bindings id).map Prod.fst).map fun a => (a, a) := by
      rw [pairs, List.zip_eq_zipWith, List.zipWith_self]
    rw [corresponds_eq, hpairs]
    refine beneath_self (fun x => ?_) _ x
    cases hp : st.parent? id with
    | none => rfl
    | some p => exact ih p (lt_of_parent? hp) x

/-- Names of scopes that are kept are called as before. -/
theorem corresponds_of_keptIn (h : st.KeptIn st₂) (h' : st'.KeptIn st₂')
    (hsize : st'.size = st.size) {id : ScopeId} (hid : id < st.size) :
    st₂.corresponds st₂' id = st.corresponds st' id := by
  induction id using Nat.strongRecOn with
  | _ id ih =>
    have hpairs : st₂.pairs st₂' id = st.pairs st' id := by
      rw [pairs, bindings, bindings, h.scope?_eq hid, h'.scope?_eq (hsize ▸ hid)]
      rfl
    rw [corresponds_eq, corresponds_eq st, hpairs, parent?, parent?, h.scope?_eq hid]
    cases hp : (st.scope? id).bind Scope.parent with
    | none => rfl
    | some p =>
      have hlt : p < id := lt_of_parent? hp
      rw [Option.elim_some, Option.elim_some, ih p hlt (Nat.lt_trans hlt hid)]

end Store

/-! ### Values of two stores -/

/-- Whether two values of two stores differ only in the choice of names inside closures. -/
inductive Value.Alpha (st st' : Store) : Value → Value → Prop where
  | number (x : Float) : Alpha st st' (.number x) (.number x)
  | text (s : String) : Alpha st st' (.text s) (.text s)
  | bool (b : Bool) : Alpha st st' (.bool b) (.bool b)
  | nil : Alpha st st' .nil .nil
  | list (identity : Nat) {items items' : List Value} (hlength : items.length = items'.length)
    (h : ∀ p ∈ items.zip items', Alpha st st' p.1 p.2) :
    Alpha st st' (.list identity items) (.list identity items')
  | closure (identity : Nat) {ps ps' : Params} {body body' : Form} {scope : ScopeId}
    (hscope : scope < st.size)
    (h : Form.Alpha (st.corresponds st' scope) (.lambda ps body) (.lambda ps' body')) :
    Alpha st st' (.closure ⟨identity, ps, body, scope⟩) (.closure ⟨identity, ps', body', scope⟩)
  | primitive (p : Primitive) : Alpha st st' (.primitive p) (.primitive p)

theorem Value.forall₂_alpha {st st' : Store} {items items' : List Value} :
    List.Forall₂ (Value.Alpha st st') items items' ↔
      items.length = items'.length ∧ ∀ p ∈ items.zip items', Value.Alpha st st' p.1 p.2 := by
  rw [List.forall₂_iff_zip]
  exact and_congr_right fun _ => ⟨fun h p hp => h hp, fun h _ _ hp => h _ hp⟩

theorem Value.Alpha.mono {st st' st₂ st₂' : Store} {v v' : Value} (hv : Value.Alpha st st' v v')
    (h : st.KeptIn st₂) (h' : st'.KeptIn st₂') (hsize : st'.size = st.size) :
    Value.Alpha st₂ st₂' v v' := by
  induction hv with
  | number x => exact .number x
  | text s => exact .text s
  | bool b => exact .bool b
  | nil => exact .nil
  | list identity hlength _ ih => exact .list identity hlength ih
  | closure identity hscope hform =>
    refine .closure identity (Nat.lt_of_lt_of_le hscope h.size_le) ?_
    rwa [Store.corresponds_of_keptIn h h' hsize hscope]
  | primitive p => exact .primitive p

namespace Store

variable {st st' : Store}

/-- Whether two stores differ only in the choice of names. -/
structure Alpha (st st' : Store) : Prop where
  size : st'.size = st.size
  parent : ∀ id, st'.parent? id = st.parent? id
  bindings : ∀ id,
    List.Forall₂ (fun b b' => Value.Alpha st st' b.2 b'.2) (st.bindings id) (st'.bindings id)

/-- **Names that correspond mean the same**, or nothing, and then they are the same name. -/
theorem Alpha.lookup? (h : st.Alpha st') {id : ScopeId} {x x' : String}
    (hx : st.corresponds st' id x x') :
    (∃ v v', st.lookup? id x = some v ∧ st'.lookup? id x' = some v' ∧ Value.Alpha st st' v v') ∨
      st.lookup? id x = none ∧ st'.lookup? id x' = none ∧ x = x' := by
  induction id using Nat.strongRecOn with
  | _ id ih =>
    rw [corresponds_eq] at hx
    rw [lookup?_eq_or, lookup?_eq_or st', bound?_eq_lookup, bound?_eq_lookup, h.parent id]
    rcases lookup_of_beneath (h.bindings id) hx with ⟨v, v', hv, hv', hvv⟩ | ⟨hv, hv', hx⟩
    · exact .inl ⟨v, v', by rw [hv, Option.some_or], by rw [hv', Option.some_or], hvv⟩
    · rw [hv, hv', Option.none_or, Option.none_or]
      cases hp : st.parent? id with
      | none =>
        rw [hp] at hx
        exact .inr ⟨rfl, rfl, hx⟩
      | some p =>
        rw [hp] at hx
        exact ih p (lt_of_parent? hp) hx

/-! ### Scopes for calls -/

theorem parent?_child {p : ScopeId} (hp : p < st.size) (bs : List (String × Value)) (id : ScopeId) :
    (st.child p bs).parent? id = if id = st.size then some p else st.parent? id := by
  rw [parent?, scope?_child hp]
  split <;> rfl

theorem bindings_child {p : ScopeId} (hp : p < st.size) (bs : List (String × Value))
    (id : ScopeId) :
    (st.child p bs).bindings id = if id = st.size then bs.reverse else st.bindings id := by
  rw [bindings, scope?_child hp]
  split <;> rfl

variable {scope : ScopeId} {τ : String → String} {ps : Params}

/-- In the scopes for the calls of two closures, names are called by others as in the scopes of the
closures, beneath the parameters. -/
theorem corresponds_child (args args' : List Value) (hsize : st'.size = st.size)
    (hscope : scope < st.size) :
    (st.child scope (ps.bind args)).corresponds (st'.child scope ((ps.rename τ).bind args')) st.size
      = beneath (st.corresponds st' scope) (ps.pairs τ) := by
  have hold := corresponds_of_keptIn (keptIn_child st scope (ps.bind args))
    (keptIn_child st' scope ((ps.rename τ).bind args')) hsize hscope
  rw [corresponds_eq, parent?_child hscope, if_pos rfl, pairs, bindings_child hscope,
    bindings_child (hsize ▸ hscope), if_pos rfl, if_pos hsize.symm, Params.zip_bind,
    Option.elim_some, hold]

/-- Scopes that are made for the calls of two closures differ only in the choice of names. -/
theorem Alpha.child (h : st.Alpha st') (hscope : scope < st.size) {args args' : List Value}
    (hargs : List.Forall₂ (Value.Alpha st st') args args') :
    (st.child scope (ps.bind args)).Alpha (st'.child scope ((ps.rename τ).bind args')) where
  size := by rw [size_child, size_child, h.size]
  parent id := by rw [parent?_child hscope, parent?_child (h.size ▸ hscope), h.size, h.parent]
  bindings id := by
    have hmono {b b' : String × Value} (hb : Value.Alpha st st' b.2 b'.2) :
        Value.Alpha (st.child scope (ps.bind args)) (st'.child scope ((ps.rename τ).bind args'))
          b.2 b'.2 :=
      hb.mono (keptIn_child _ _ _) (keptIn_child _ _ _) h.size
    rw [bindings_child hscope, bindings_child (h.size ▸ hscope), h.size]
    split
    · exact (List.rel_reverse (Params.forall₂_bind .nil τ ps hargs)).imp fun _ _ => hmono
    · exact (h.bindings id).imp fun _ _ => hmono

end Store

end OutlineLisp
