import Mathlib.Data.List.Sort
import Mathlib.Logic.Relation
import OutlineLisp.Proofs.Form.Free
import OutlineLisp.Proofs.Scope.Growth
import OutlineLisp.Proofs.Value.Inheritance
import OutlineLisp.Proofs.Value.Renaming

/-!
# What scopes refer to

A scope refers to its parent, and to the scopes that the closures keep to which it binds names. All
scopes but the first look back: they are made when their parent and the values that they bind are
there already, and nothing is bound in them later. Only the first scope, in which definitions are
registered, may bind closures that keep younger scopes. So every circle of references leads through
the first scope, and there is none once that has dropped its bindings.

## Main definitions

* `Value.Captures`, `Store.Refers`: what values and scopes refer to.
* `Store.Chain`: a scope with its parent, the parent of that, and so on.
* `Store.LooksBack`: all scopes but the first refer to older ones.
* `Store.Founded`: what follows for chains, lookups and circles.

## Main results

* `Store.LooksBack.child`, `Store.LooksBack.define`: what keeps this so.
* `Store.LooksBack.exists_chain`: from every scope the parents lead to the first one.
* `Store.LooksBack.founded`: there are no circles without the bindings of the first scope.
-/

namespace OutlineLisp

/-- Whether some closure in a value keeps a scope, also inside lists. -/
inductive Value.Captures (id : ScopeId) : Value → Prop where
  | closure {c : Closure} (h : c.scope = id) : Captures id (.closure c)
  | item {identity : ℕ} {items : List Value} {item : Value} (hmem : item ∈ items)
    (h : Captures id item) : Captures id (.list identity items)

namespace Value

variable {v : Value} {m n : ℕ}

theorem Within.mono (h : v.Within m) (hle : m ≤ n) : v.Within n := by
  induction h with
  | number x => exact .number x
  | text s => exact .text s
  | bool b => exact .bool b
  | nil => exact .nil
  | list identity _ ih => exact .list identity ih
  | closure h => exact .closure (Nat.lt_of_lt_of_le h hle)
  | primitive p => exact .primitive p

theorem Within.lt_of_captures (h : v.Within n) {id : ScopeId} (hid : v.Captures id) : id < n := by
  induction hid with
  | closure hc =>
    cases h with
    | closure h => exact hc ▸ h
  | item hmem _ ih =>
    cases h with
    | list _ h => exact ih (h _ hmem)

/-- Which scopes closures keep goes from arguments to results. -/
theorem inherited_within (n fresh : ℕ) : Inherited fresh (Within n) where
  number := .number
  text := .text
  bool := .bool
  nil := .nil
  item h := by
    cases h
    assumption
  pair ha hb := .list fresh (by simp [ha, hb])

end Value

namespace Store

variable {st : Store}

/-- Whether a scope has another as its parent, or binds a name to a value that captures it. -/
def Refers (st : Store) (i j : ScopeId) : Prop :=
  st.parent? i = some j ∨ ∃ x v, st.bound? i x = some v ∧ v.Captures j

/-- Whether scopes are those from one outwards: each is the parent of the one before, and the last
has no parent. -/
inductive Chain (st : Store) : ScopeId → List ScopeId → Prop where
  | last {id : ScopeId} (h : st.parent? id = none) : Chain st id [id]
  | outwards {id p : ScopeId} {ids : List ScopeId} (h : st.parent? id = some p)
    (hids : Chain st p ids) : Chain st id (id :: ids)

/-- Looking a name up visits the scopes outwards, up to the first one that binds it. -/
theorem Chain.lookup?_eq {id : ScopeId} {ids : List ScopeId} (h : st.Chain id ids) (x : String) :
    st.lookup? id x = ids.findSome? fun i => st.bound? i x := by
  induction h with
  | last h =>
    rw [lookup?_eq_or, h, List.findSome?_singleton, Option.bind_none, Option.or_none]
  | @outwards id p ids h _ ih =>
    rw [lookup?_eq_or, h, Option.bind_some, ih, List.findSome?_cons]
    cases st.bound? id x <;> rfl

/-- The scopes outwards are older and older. -/
theorem Chain.sorted {id : ScopeId} {ids : List ScopeId} (h : st.Chain id ids) :
    ids.Pairwise (· > ·) ∧ ∀ i ∈ ids, i ≤ id := by
  induction h with
  | last _ => simp
  | @outwards id p ids h _ ih =>
    have hlt : p < id := lt_of_parent? h
    have hids : ∀ i ∈ ids, i < id := fun i hi => Nat.lt_of_le_of_lt (ih.2 i hi) hlt
    refine ⟨List.pairwise_cons.2 ⟨hids, ih.1⟩, List.forall_mem_cons.2 ⟨Nat.le_refl id, ?_⟩⟩
    exact fun i hi => Nat.le_of_lt (hids i hi)

/-- Whether all scopes but the first refer to older ones only, and the first to scopes that exist.
Every scope but the first has a parent. -/
structure LooksBack (st : Store) : Prop where
  size_pos : 0 < st.size
  parent : ∀ id, 0 < id → id < st.size → ∃ p, st.parent? id = some p
  older : ∀ id x v, 0 < id → st.bound? id x = some v → v.Within id
  first : ∀ x v, st.bound? 0 x = some v → v.Within st.size

/-- What references can be relied on for. -/
structure Founded (st : Store) : Prop where
  /-- Every scope but the first refers to older scopes only. -/
  older : ∀ i j, i ≠ 0 → st.Refers i j → j < i
  /-- From every scope the parents lead, through older and older ones, to the first one, and looking
  a name up visits these scopes. -/
  chain : ∀ i, i < st.size → ∃ ids, st.Chain i ids ∧ ids.Pairwise (· > ·) ∧ ids.getLast? = some 0 ∧
    ∀ x, st.lookup? i x = ids.findSome? fun j => st.bound? j x
  /-- Every circle of references leads through the first scope. -/
  circles : ∀ i, ¬Relation.TransGen (fun i j => i ≠ 0 ∧ st.Refers i j) i i
  /-- After the first scope has dropped its bindings there are no circles. -/
  cleared : ∀ i, ¬Relation.TransGen (st.clear 0).Refers i i

/-- What leads to smaller numbers only does not lead back. -/
theorem not_transGen_self {R : ℕ → ℕ → Prop} (h : ∀ i j, R i j → j < i) (i : ℕ) :
    ¬Relation.TransGen R i i := by
  have hlt {j : ℕ} (hj : Relation.TransGen R i j) : j < i := by
    induction hj with
    | single hr => exact h _ _ hr
    | tail _ hr ih => exact Nat.lt_trans (h _ _ hr) ih
  exact fun hi => Nat.lt_irrefl i (hlt hi)

namespace LooksBack

/-- Whatever a name means refers to scopes that exist. -/
theorem within_of_lookup? (h : st.LooksBack) {id : ScopeId} {x : String} {v : Value}
    (hv : st.lookup? id x = some v) : v.Within st.size := by
  obtain ⟨i, hi⟩ := exists_bound?_of_lookup? hv
  rcases Nat.eq_zero_or_pos i with rfl | hpos
  · exact h.first x v hi
  · exact (h.older i x v hpos hi).mono (Nat.le_of_lt (lt_size_of_bound? hi))

/-! ### What keeps scopes looking back -/

/-- A store with one scope, whose values capture nothing. -/
theorem root {bindings : List (String × Value)} (h : ∀ b ∈ bindings, b.2.Within 0) :
    (empty.root bindings).LooksBack where
  size_pos := Nat.one_pos
  parent id hpos hlt := absurd hlt (Nat.not_lt.2 hpos)
  older id x v hpos hv := absurd (lt_size_of_bound? hv) (Nat.not_lt.2 hpos)
  first x v hv := by
    have hlookup : (bindings.reverse ++ []).lookup x = some v := hv
    rw [List.append_nil] at hlookup
    exact (h _ (mem_of_lookup_reverse hlookup)).mono (Nat.zero_le _)

/-- A new scope may bind names to whatever is there. -/
theorem child (h : st.LooksBack) {p : ScopeId} (hp : p < st.size)
    {bindings : List (String × Value)} (hbindings : ∀ b ∈ bindings, b.2.Within st.size) :
    (st.child p bindings).LooksBack where
  size_pos := by rw [size_child]; exact Nat.succ_pos _
  parent id hpos hlt := by
    rw [parent?_child_eq_ite]
    split
    · exact ⟨p, rfl⟩
    · next hne =>
      rw [size_child] at hlt
      exact h.parent id hpos (Nat.lt_of_le_of_ne (Nat.le_of_lt_succ hlt) hne)
  older id x v hpos hv := by
    rw [bound?_child] at hv
    split at hv
    · next heq => exact heq ▸ hbindings _ (mem_of_lookup_reverse hv)
    · exact h.older id x v hpos hv
  first x v hv := by
    rw [bound?_child, if_neg (Nat.ne_of_lt h.size_pos)] at hv
    exact (h.first x v hv).mono (by rw [size_child]; exact Nat.le_succ _)

/-- The first scope may bind a name to whatever is there. -/
theorem define (h : st.LooksBack) {v : Value} (hv : v.Within st.size) (name : String) :
    (st.define 0 name v).LooksBack where
  size_pos := by rw [size_define]; exact h.size_pos
  parent id hpos hlt := by
    rw [parent?_define]
    exact h.parent id hpos (by rwa [size_define] at hlt)
  older id x u hpos hu := by
    rw [bound?_define h.size_pos, if_neg fun heq => Nat.ne_of_gt hpos heq.1] at hu
    exact h.older id x u hpos hu
  first x u hu := by
    rw [size_define]
    rw [bound?_define h.size_pos] at hu
    split at hu
    · exact Option.some.inj hu ▸ hv
    · exact h.first x u hu

/-- The first scope may drop its bindings. -/
theorem clear (h : st.LooksBack) : (st.clear 0).LooksBack where
  size_pos := by rw [size_clear]; exact h.size_pos
  parent id hpos hlt := by
    rw [parent?_clear]
    exact h.parent id hpos (by rwa [size_clear] at hlt)
  older id x v hpos hv := by
    rw [bound?_clear, if_neg (Nat.ne_of_gt hpos)] at hv
    exact h.older id x v hpos hv
  first x v hv := by
    rw [bound?_clear, if_pos rfl] at hv
    cases hv

/-! ### Where references lead -/

/-- All scopes but the first refer to older ones. -/
theorem lt_of_refers (h : st.LooksBack) {i j : ScopeId} (hi : 0 < i) (hr : st.Refers i j) :
    j < i := by
  rcases hr with hp | ⟨x, v, hv, hj⟩
  · exact lt_of_parent? hp
  · exact (h.older i x v hi hv).lt_of_captures hj

/-- From every scope the parents lead to the first one. -/
theorem exists_chain (h : st.LooksBack) {id : ScopeId} (hid : id < st.size) :
    ∃ ids, st.Chain id ids ∧ ids.getLast? = some 0 := by
  induction id using Nat.strongRecOn with
  | _ id ih =>
    rcases Nat.eq_zero_or_pos id with rfl | hpos
    · exact ⟨[0], .last st.parent?_zero, rfl⟩
    · obtain ⟨p, hp⟩ := h.parent id hpos hid
      have hlt : p < id := lt_of_parent? hp
      obtain ⟨ids, hids, hlast⟩ := ih p hlt (Nat.lt_trans hlt hid)
      refine ⟨id :: ids, .outwards hp hids, ?_⟩
      rw [List.getLast?_cons, hlast]
      rfl

/-- Without the bindings of the first scope all references lead to older scopes. -/
theorem lt_of_refers_clear (h : st.LooksBack) {i j : ScopeId} (hr : (st.clear 0).Refers i j) :
    j < i := by
  rcases hr with hp | ⟨x, v, hv, hj⟩
  · exact lt_of_parent? hp
  · rw [bound?_clear] at hv
    split at hv
    · cases hv
    · next hi => exact (h.older i x v (Nat.pos_of_ne_zero hi) hv).lt_of_captures hj

/-- **Scopes that look back make no circles** without the bindings of the first one. -/
theorem founded (h : st.LooksBack) : st.Founded where
  older i j hi hr := h.lt_of_refers (Nat.pos_of_ne_zero hi) hr
  chain i hi := by
    obtain ⟨ids, hids, hlast⟩ := h.exists_chain hi
    exact ⟨ids, hids, hids.sorted.1, hlast, hids.lookup?_eq⟩
  circles := not_transGen_self fun i j hij => h.lt_of_refers (Nat.pos_of_ne_zero hij.1) hij.2
  cleared := not_transGen_self fun i j hij => h.lt_of_refers_clear hij

end LooksBack

end Store

end OutlineLisp
