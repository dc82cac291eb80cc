import OutlineLisp.Value.Basic

/-!
# Scopes

A scope binds names, and a name that it does not bind is looked up in its parent. Scopes are never
removed from a store, and a scope's parent is older than the scope itself; so looking a name up ends
at a scope without a parent.

Binding a name again hides the earlier binding. A number that no scope has yet stands for a scope
that binds nothing.

## Main definitions

* `Scope`, `Store`: a scope, and all scopes.
* `Store.root`, `Store.child`: a new scope without a parent, and with one.
* `Store.define`, `Store.clear`: bind a name, and drop all bindings.
* `Store.lookup?`: what a name means in a scope.
-/

namespace OutlineLisp

/-- A scope: its parent and its bindings, the newest first. -/
structure Scope where
  parent : Option ScopeId := none
  bindings : List (String × Value) := []

namespace Scope

/-- What a scope itself binds a name to. -/
def find? (s : Scope) (name : String) : Option Value := s.bindings.lookup name

/-- A scope with one more binding. -/
def define (s : Scope) (name : String) (v : Value) : Scope :=
  { s with bindings := (name, v) :: s.bindings }

/-- A scope with more bindings, made in the given order. -/
def defineAll (s : Scope) (bindings : List (String × Value)) : Scope :=
  { s with bindings := bindings.reverse ++ s.bindings }

/-- A scope without its bindings. -/
def clear (s : Scope) : Scope := { s with bindings := [] }

end Scope

/-- All scopes, by number. The parent of a scope has a smaller number. -/
structure Store where
  scopes : Array Scope := #[]
  parent_lt : ∀ (i : Nat) (h : i < scopes.size) (p : ScopeId), scopes[i].parent = some p → p < i :=
    by intro i h; exact absurd h (Nat.not_lt_zero i)

namespace Store

/-- The store without scopes. -/
def empty : Store := {}

/-- The number of scopes. -/
def size (st : Store) : Nat := st.scopes.size

/-- A scope by its number. -/
def scope? (st : Store) (id : ScopeId) : Option Scope := st.scopes[id]?

theorem parent_lt_push {st : Store} {s : Scope} (h : ∀ p, s.parent = some p → p < st.size) :
    ∀ (i : Nat) (hi : i < (st.scopes.push s).size) (p : ScopeId),
      (st.scopes.push s)[i].parent = some p → p < i := by
  intro i hi p hp
  rw [Array.size_push] at hi
  by_cases hlt : i < st.scopes.size
  · rw [Array.getElem_push_lt hlt] at hp
    exact st.parent_lt i hlt p hp
  · have hi' : i = st.scopes.size := by omega
    subst hi'
    rw [Array.getElem_push_eq] at hp
    exact h p hp

/-- A store with one more scope, which has no parent. -/
def root (st : Store) (bindings : List (String × Value)) : Store :=
  { scopes := st.scopes.push (Scope.defineAll {} bindings)
    parent_lt := parent_lt_push (by intro p hp; cases hp) }

/-- A store with one more scope inside another. The child of a scope that does not exist has no
parent, which binds as much. -/
def child (st : Store) (parent : ScopeId) (bindings : List (String × Value)) : Store :=
  if h : parent < st.size then
    { scopes := st.scopes.push (Scope.defineAll { parent := some parent } bindings)
      parent_lt := parent_lt_push (by intro p hp; cases hp; exact h) }
  else st.root bindings

theorem parent_lt_modify {st : Store} (id : ScopeId) {f : Scope → Scope}
    (h : ∀ s, (f s).parent = s.parent) :
    ∀ (i : Nat) (hi : i < (st.scopes.modify id f).size) (p : ScopeId),
      (st.scopes.modify id f)[i].parent = some p → p < i := by
  intro i hi p hp
  rw [Array.size_modify] at hi
  rw [Array.getElem_modify] at hp
  split at hp
  · rw [h] at hp
    exact st.parent_lt i hi p hp
  · exact st.parent_lt i hi p hp

/-- A store after one of its scopes has bound a name. -/
def define (st : Store) (id : ScopeId) (name : String) (v : Value) : Store :=
  { scopes := st.scopes.modify id fun s => s.define name v
    parent_lt := parent_lt_modify id fun _ => rfl }

/-- A store after one of its scopes has bound several names in order. -/
def defineAll (st : Store) (id : ScopeId) (bindings : List (String × Value)) : Store :=
  { scopes := st.scopes.modify id fun s => s.defineAll bindings
    parent_lt := parent_lt_modify id fun _ => rfl }

/-- A store after one of its scopes has dropped its bindings. -/
def clear (st : Store) (id : ScopeId) : Store :=
  { scopes := st.scopes.modify id Scope.clear
    parent_lt := parent_lt_modify id fun _ => rfl }

/-- The parent of a scope. -/
def parent? (st : Store) (id : ScopeId) : Option ScopeId := (st.scope? id).bind Scope.parent

/-- What a scope itself binds a name to. -/
def bound? (st : Store) (id : ScopeId) (name : String) : Option Value :=
  (st.scope? id).bind fun s => s.find? name

theorem lt_of_parent? {st : Store} {id p : ScopeId} (h : st.parent? id = some p) : p < id := by
  rw [parent?, scope?] at h
  obtain ⟨s, hs, hp⟩ := Option.bind_eq_some_iff.1 h
  obtain ⟨hlt, rfl⟩ := Array.getElem?_eq_some_iff.1 hs
  exact st.parent_lt id hlt p hp

/-- What a name means in a scope: what the nearest scope that binds it says. -/
def lookup? (st : Store) (id : ScopeId) (name : String) : Option Value :=
  match st.bound? id name with
  | some v => some v
  | none =>
    match _h : st.parent? id with
    | some p => st.lookup? p name
    | none => none
termination_by id
decreasing_by exact lt_of_parent? ‹_›

/-- What a name means in a scope. It is a fault if no scope binds it. -/
def lookup (st : Store) (id : ScopeId) (name : String) : Except Fault Value :=
  match st.lookup? id name with
  | some v => .ok v
  | none => .error (.unbound name)

end Store

end OutlineLisp
