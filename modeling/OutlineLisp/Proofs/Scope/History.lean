import Mathlib.Data.List.Induction
import Mathlib.Data.Nat.Notation
import Mathlib.Logic.Relation
import OutlineLisp.Proofs.Scope.Growth

/-!
# A history of scopes

Scopes are made, inside others or not, they bind names, and they drop their bindings. What a name
means afterwards can be read off these operations in the order in which they were done, whatever
scopes they were done on: a scope has the latest definition of a name since it last dropped its
bindings, and a name means what the nearest scope says that has one.

The scope that an operation is done on must be there. Scopes are numbered in the order in which they
are made.

## Main definitions

* `Store.Operation`, `Store.perform`: operations, and what they do.
* `Store.IsHistory`: operations that can be done one after another.
* `Store.MadeInside`, `Store.Defined`: what operations say about parents and bindings.
* `Store.FollowsHistory`: scopes that are as some operations say.

## Main results

* `Store.bound?_after`, `Store.parent?_after`: bindings and parents after some operations.
* `Store.lookup?_eq_some_iff`, `Store.lookup?_eq_none_iff`: names along a chain of parents.
* `Store.followsHistory`: scopes are as their history says.
-/

namespace OutlineLisp

namespace Store

open Relation (ReflTransGen)

/-! ### Operations -/

/-- An operation on scopes. -/
inductive Operation where
  /-- A scope without a parent is made. -/
  | root
  /-- A scope is made inside another. -/
  | child (parent : ScopeId)
  /-- A scope binds a name. -/
  | define (id : ScopeId) (name : String) (v : Value)
  /-- A scope drops its bindings. -/
  | clear (id : ScopeId)

namespace Operation

/-- The scope that an operation is done on. -/
def scope? : Operation → Option ScopeId
  | root => none
  | child p => some p
  | define id _ _ => some id
  | clear id => some id

/-- The scope that may bind something else afterwards. -/
def changed? : Operation → Option ScopeId
  | define id _ _ => some id
  | clear id => some id
  | _ => none

/-- Whether a scope is made. -/
def makesScope : Operation → Bool
  | root => true
  | child _ => true
  | _ => false

end Operation

/-- A store after an operation. -/
def perform (st : Store) : Operation → Store
  | .root => st.root []
  | .child p => st.child p []
  | .define id name v => st.define id name v
  | .clear id => st.clear id

/-- The scopes after some operations, of which the first was done when there were none. -/
def after (ops : List Operation) : Store := ops.foldl perform empty

/-- How many scopes some operations make. -/
def made (ops : List Operation) : ℕ := ops.countP Operation.makesScope

/-- Whether operations can be done one after another: each is done on a scope that is there. -/
inductive IsHistory : List Operation → Prop where
  | nil : IsHistory []
  | concat {ops : List Operation} {op : Operation} (h : IsHistory ops)
    (hop : ∀ id ∈ op.scope?, id < made ops) : IsHistory (ops ++ [op])

/-! ### What operations say -/

/-- Whether a scope was made inside another. -/
def MadeInside (ops : List Operation) (id p : ScopeId) : Prop :=
  ∃ earlier later, ops = earlier ++ .child p :: later ∧ made earlier = id

/-- Whether a value is the latest definition of a name in a scope, since the scope last dropped its
bindings. -/
def Defined (ops : List Operation) (id : ScopeId) (x : String) (v : Value) : Prop :=
  ∃ earlier later, ops = earlier ++ .define id x v :: later ∧
    (∀ u, .define id x u ∉ later) ∧ .clear id ∉ later

variable {ops : List Operation} {op : Operation} {st : Store} {id p : ScopeId} {x : String}
  {v : Value}

/-- A list that is split at one of its members is split at the last one, or before it. -/
theorem append_singleton_eq_append_cons_iff {α : Type} {as bs cs : List α} {a b : α} :
    as ++ [a] = bs ++ b :: cs ↔
      (as = bs ∧ a = b ∧ cs = []) ∨ ∃ ds, as = bs ++ b :: ds ∧ cs = ds ++ [a] := by
  constructor
  · intro h
    rcases List.eq_nil_or_concat cs with rfl | ⟨ds, d, rfl⟩
    · obtain ⟨rfl, hab⟩ := List.append_inj' h rfl
      exact .inl ⟨rfl, List.head_eq_of_cons_eq hab, rfl⟩
    · rw [List.concat_eq_append, ← List.cons_append, ← List.append_assoc] at h
      obtain ⟨rfl, had⟩ := List.append_inj' h rfl
      exact .inr ⟨ds, rfl, by rw [had, List.concat_eq_append]⟩
  · rintro (⟨rfl, rfl, rfl⟩ | ⟨ds, rfl, rfl⟩)
    · rfl
    · rw [List.append_assoc, List.cons_append]

theorem made_concat (ops : List Operation) (op : Operation) :
    made (ops ++ [op]) = made ops + if op.makesScope then 1 else 0 := by
  rw [made, List.countP_append, List.countP_singleton, made]

theorem madeInside_concat :
    MadeInside (ops ++ [op]) id p ↔ MadeInside ops id p ∨ op = .child p ∧ made ops = id := by
  constructor
  · rintro ⟨earlier, later, hsplit, hid⟩
    rcases append_singleton_eq_append_cons_iff.1 hsplit with ⟨rfl, hop, -⟩ | ⟨later, hops, -⟩
    · exact .inr ⟨hop, hid⟩
    · exact .inl ⟨earlier, later, hops, hid⟩
  · rintro (⟨earlier, later, rfl, hid⟩ | ⟨rfl, hid⟩)
    · exact ⟨earlier, later ++ [op], by rw [List.append_assoc, List.cons_append], hid⟩
    · exact ⟨ops, [], rfl, hid⟩

/-- A definition is the latest one until there is another one, or the bindings are dropped. -/
theorem defined_concat :
    Defined (ops ++ [op]) id x v ↔ op = .define id x v ∨
      Defined ops id x v ∧ (∀ u, op ≠ .define id x u) ∧ op ≠ .clear id := by
  constructor
  · rintro ⟨earlier, later, hsplit, hdefine, hclear⟩
    rcases append_singleton_eq_append_cons_iff.1 hsplit with ⟨-, hop, -⟩ | ⟨later, hops, rfl⟩
    · exact .inl hop
    · simp only [List.mem_append, List.mem_singleton, not_or] at hdefine hclear
      exact .inr ⟨⟨earlier, later, hops, fun u => (hdefine u).1, hclear.1⟩,
        fun u => Ne.symm (hdefine u).2, Ne.symm hclear.2⟩
  · rintro (rfl | ⟨⟨earlier, later, rfl, hdefine, hclear⟩, hop, hop'⟩)
    · exact ⟨ops, [], rfl, fun u => List.not_mem_nil, List.not_mem_nil⟩
    · refine ⟨earlier, later ++ [op], by rw [List.append_assoc, List.cons_append], fun u => ?_, ?_⟩
      · rw [List.mem_append, List.mem_singleton]
        exact not_or.2 ⟨hdefine u, Ne.symm (hop u)⟩
      · rw [List.mem_append, List.mem_singleton]
        exact not_or.2 ⟨hclear, Ne.symm hop'⟩

/-! ### What operations do -/

/-- A scope without a parent is made as if its parent were not there. -/
theorem root_eq_child (st : Store) (bindings : List (String × Value)) :
    st.root bindings = st.child st.size bindings := by
  rw [child, dif_neg (Nat.lt_irrefl _)]

/-- A scope that is made binds nothing, as did its number before. -/
theorem bound?_child_nil (st : Store) (p id : ScopeId) (x : String) :
    (st.child p []).bound? id x = st.bound? id x := by
  rw [bound?_child]
  split
  · next hid =>
    rw [bound?, scope?_eq_none (Nat.le_of_eq hid.symm)]
    rfl
  · rfl

theorem size_perform (st : Store) (op : Operation) :
    (st.perform op).size = st.size + if op.makesScope then 1 else 0 := by
  cases op with
  | root => rw [perform, root_eq_child, size_child]; rfl
  | child p => rw [perform, size_child]; rfl
  | define id name v => exact size_define st id name v
  | clear id => exact size_clear st id

/-- What scopes bind after an operation on a scope that is there. -/
theorem bound?_perform (hop : ∀ i ∈ op.scope?, i < st.size) :
    (st.perform op).bound? id x = some v ↔ op = .define id x v ∨
      st.bound? id x = some v ∧ (∀ u, op ≠ .define id x u) ∧ op ≠ .clear id := by
  cases op with
  | root => simp [perform, root_eq_child, bound?_child_nil]
  | child p => simp [perform, bound?_child_nil]
  | define i name u =>
    rw [perform, bound?_define (hop i rfl)]
    by_cases h : id = i ∧ x = name
    · obtain ⟨rfl, rfl⟩ := h
      simp
    · rw [if_neg h]
      grind
  | clear i =>
    rw [perform, bound?_clear]
    grind

/-- The parents of scopes after an operation on a scope that is there. -/
theorem parent?_perform (hop : ∀ i ∈ op.scope?, i < st.size) :
    (st.perform op).parent? id = some p ↔
      st.parent? id = some p ∨ op = .child p ∧ st.size = id := by
  have hnew : st.parent? st.size = none := by rw [parent?, scope?_eq_none (Nat.le_refl _)]; rfl
  cases op with
  | root =>
    rw [perform, root_eq_child, parent?_child_eq_ite]
    grind
  | child q =>
    rw [perform, parent?_child_eq_ite, if_pos (hop q rfl)]
    grind
  | define i name u => simp [perform, parent?_define]
  | clear i => simp [perform, parent?_clear]

theorem after_concat (ops : List Operation) (op : Operation) :
    after (ops ++ [op]) = (after ops).perform op := by
  rw [after, List.foldl_append, after]
  rfl

/-- Scopes are numbered in the order in which they are made. -/
theorem size_after (ops : List Operation) : (after ops).size = made ops := by
  induction ops using List.reverseRecOn with
  | nil => rfl
  | append_singleton ops op ih => rw [after_concat, size_perform, ih, made_concat]

/-- **What a scope binds** is the latest definition. -/
theorem bound?_after (h : IsHistory ops) :
    (after ops).bound? id x = some v ↔ Defined ops id x v := by
  induction h with
  | nil =>
    refine iff_of_false (fun hbound => ?_) ?_
    · exact Nat.not_lt_zero id (lt_size_of_bound? hbound)
    · rintro ⟨earlier, later, hsplit, -⟩
      exact List.append_ne_nil_of_right_ne_nil earlier (List.cons_ne_nil _ _) hsplit.symm
  | @concat ops op _ hop ih =>
    rw [← size_after] at hop
    rw [after_concat, bound?_perform hop, defined_concat, ih]

/-- **The parent of a scope** is the one inside which it was made. -/
theorem parent?_after (h : IsHistory ops) :
    (after ops).parent? id = some p ↔ MadeInside ops id p := by
  induction h with
  | nil =>
    refine iff_of_false (fun hparent => ?_) ?_
    · rw [parent?, scope?_eq_none (Nat.zero_le _)] at hparent
      cases hparent
    · rintro ⟨earlier, later, hsplit, -⟩
      exact List.append_ne_nil_of_right_ne_nil earlier (List.cons_ne_nil _ _) hsplit.symm
  | @concat ops op _ hop ih =>
    rw [← size_after] at hop
    rw [after_concat, parent?_perform hop, madeInside_concat, ih, size_after]

/-! ### Names along a chain of parents -/

/-- A name means what the nearest scope says that binds it. -/
theorem lookup?_eq_some_iff (st : Store) (id : ScopeId) (x : String) (v : Value) :
    st.lookup? id x = some v ↔
      ∃ s, ReflTransGen (fun a b => st.parent? a = some b ∧ st.bound? a x = none) id s ∧
        st.bound? s x = some v := by
  constructor
  · intro h
    induction id using Nat.strongRecOn with
    | _ id ih =>
      rw [lookup?_eq_or, Option.or_eq_some_iff] at h
      rcases h with hbound | ⟨hnone, hrest⟩
      · exact ⟨id, .refl, hbound⟩
      · obtain ⟨p, hp, hv⟩ := Option.bind_eq_some_iff.1 hrest
        obtain ⟨s, hpath, hs⟩ := ih p (lt_of_parent? hp) hv
        exact ⟨s, .head ⟨hp, hnone⟩ hpath, hs⟩
  · rintro ⟨s, hpath, hs⟩
    induction hpath using ReflTransGen.head_induction_on with
    | refl => exact lookup?_of_bound? hs
    | head hstep _ ih => rw [lookup?_eq_or, hstep.2, Option.none_or, hstep.1, Option.bind_some, ih]

/-- A name means nothing if no scope on the way out binds it. -/
theorem lookup?_eq_none_iff (st : Store) (id : ScopeId) (x : String) :
    st.lookup? id x = none ↔
      ∀ s, ReflTransGen (fun a b => st.parent? a = some b) id s → st.bound? s x = none := by
  constructor
  · intro h s hpath
    induction hpath using ReflTransGen.head_induction_on with
    | refl =>
      rw [lookup?_eq_or, Option.or_eq_none_iff] at h
      exact h.1
    | head hstep _ ih =>
      rw [lookup?_eq_or, Option.or_eq_none_iff, hstep, Option.bind_some] at h
      exact ih h.2
  · intro h
    cases hv : st.lookup? id x with
    | none => rfl
    | some v =>
      obtain ⟨s, hpath, hs⟩ := (lookup?_eq_some_iff st id x v).1 hv
      rw [h s (ReflTransGen.mono (fun _ _ hstep => hstep.1) _ _ hpath)] at hs
      cases hs

/-! ### The law -/

/-- Whether scopes are as some operations say. -/
structure FollowsHistory (ops : List Operation) : Prop where
  /-- A name means its latest definition in the nearest scope that has one. -/
  lookup : ∀ id x v, (after ops).lookup id x = .ok v ↔
    ∃ s, ReflTransGen (fun a b => MadeInside ops a b ∧ ∀ u, ¬Defined ops a x u) id s ∧
      Defined ops s x v
  /-- A name is unbound if there is none, and this is the only fault. -/
  unbound : ∀ id x fault, (after ops).lookup id x = .error fault ↔ fault = .unbound x ∧
    ∀ s, ReflTransGen (MadeInside ops) id s → ∀ v, ¬Defined ops s x v
  /-- A scope itself binds what it has a definition of. -/
  bound : ∀ id x, ((after ops).bound? id x).isSome = true ↔ ∃ v, Defined ops id x v
  /-- Its parent is the scope inside which it was made. -/
  parent : ∀ id p, (after ops).parent? id = some p ↔ MadeInside ops id p
  /-- One more operation changes no parent, and no bindings but those of the scope that it is done
  on. -/
  kept : ∀ op : Operation, (∀ i ∈ op.scope?, i < made ops) → ∀ id < made ops,
    (after (ops ++ [op])).parent? id = (after ops).parent? id ∧
      (op.changed? ≠ some id → ∀ x, (after (ops ++ [op])).bound? id x = (after ops).bound? id x)

theorem bound?_after_eq_none (h : IsHistory ops) :
    (after ops).bound? id x = none ↔ ∀ v, ¬Defined ops id x v := by
  rw [Option.eq_none_iff_forall_ne_some]
  exact forall_congr' fun v => not_congr (bound?_after h)

/-- **Scopes are as their history says.** -/
theorem followsHistory (h : IsHistory ops) : FollowsHistory ops where
  lookup id x v := by
    have hlookup : (after ops).lookup id x = .ok v ↔ (after ops).lookup? id x = some v := by
      rw [Store.lookup]
      cases (after ops).lookup? id x <;> simp
    rw [hlookup, lookup?_eq_some_iff]
    simp only [parent?_after h, bound?_after h, bound?_after_eq_none h]
  unbound id x fault := by
    have hlookup : (after ops).lookup id x = .error fault ↔
        fault = .unbound x ∧ (after ops).lookup? id x = none := by
      rw [Store.lookup]
      cases (after ops).lookup? id x <;> simp [eq_comm]
    rw [hlookup, lookup?_eq_none_iff]
    simp only [parent?_after h, bound?_after_eq_none h]
  bound id x := by
    rw [Option.isSome_iff_exists]
    exact exists_congr fun v => bound?_after h
  parent id p := parent?_after h
  kept op hop id hid := by
    rw [← size_after] at hop hid
    refine ⟨Option.ext fun p => ?_, fun hchanged x => Option.ext fun v => ?_⟩
    · rw [after_concat, parent?_perform hop]
      exact or_iff_left fun hmade => Nat.ne_of_gt hid hmade.2
    · have hdefine (u : Value) : op ≠ .define id x u := by
        rintro rfl
        exact hchanged rfl
      have hclear : op ≠ .clear id := by
        rintro rfl
        exact hchanged rfl
      rw [after_concat, bound?_perform hop]
      simp [hdefine, hclear]

/-! ### A name that is hidden for a while -/

/-- A scope inside another hides a name until it drops its bindings. The outer one binds the name
when the inner one is there. -/
def hidden : List Operation :=
  [.root, .child 0, .define 1 "x" (.text "inner"), .clear 1, .define 0 "x" (.text "outer")]

theorem isHistory_hidden : IsHistory hidden := by
  have h₁ : IsHistory [.root] := IsHistory.nil.concat (by decide)
  have h₂ : IsHistory [.root, .child 0] := h₁.concat (by decide)
  have h₃ : IsHistory [.root, .child 0, .define 1 "x" (.text "inner")] := h₂.concat (by decide)
  have h₄ : IsHistory [.root, .child 0, .define 1 "x" (.text "inner"), .clear 1] :=
    h₃.concat (by decide)
  exact h₄.concat (by decide)

/-- In the inner scope the name means what the outer one binds it to. -/
theorem followsHistory_hidden :
    IsHistory hidden ∧ FollowsHistory hidden ∧
      (after hidden).lookup 1 "x" = .ok (.text "outer") := by
  have h := followsHistory isHistory_hidden
  have hinner : ∀ u, ¬Defined hidden 1 "x" u := (bound?_after_eq_none isHistory_hidden).1 rfl
  have houter : Defined hidden 0 "x" (.text "outer") := (bound?_after isHistory_hidden).1 rfl
  have hparent : MadeInside hidden 1 0 := (h.parent 1 0).1 rfl
  exact ⟨isHistory_hidden, h, (h.lookup 1 "x" _).2 ⟨0, .single ⟨hparent, hinner⟩, houter⟩⟩

end Store

end OutlineLisp
