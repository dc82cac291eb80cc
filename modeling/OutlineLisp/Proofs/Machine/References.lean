import OutlineLisp.Proofs.Machine.Invariant
import OutlineLisp.Proofs.Machine.Scopes
import OutlineLisp.Proofs.Scope.References

/-!
# What a run refers to

A call makes a scope when its arguments are there already, and so the scope that it makes looks
back. This needs that whatever the machine works with, the values and scopes in what waits as well
as those in the store, refers to scopes that exist, and that is an invariant since scopes are never
removed.

## Main definitions

* `Machine.grounding`: the invariant.

## Main results

* `Evaluator.grounded_answer`: a request keeps it, and answers what refers to scopes that exist.
* `Evaluator.size_le_answer`: no scope is removed.
-/

namespace OutlineLisp

/-- All that the machine works with refers to scopes that exist, and all scopes but the first look
back. -/
def Machine.grounding : Machine.Invariant where
  value st v := v.Within st.size
  form st scope _ := scope < st.size
  store st := st.LooksBack
  fault _ := True
  value_mono h hst := h.mono hst.size_le
  form_mono h hst := Nat.lt_of_lt_of_le h hst.size_le
  part h _ := h
  lookup h hv := h.within_of_lookup? hv
  unbound _ _ := trivial
  finds _ := trivial
  closure _ h := .closure h
  inherited st fresh := Value.inherited_within st.size fresh
  enter := by
    intro st c args hstore hcallee hargs
    have hscope : c.scope < st.size := by
      cases hcallee
      assumption
    have hbindings : ∀ b ∈ c.params.bind args, b.2.Within st.size := by
      intro b hb
      rcases Params.of_mem_bind hb with hnil | hmem
      · exact hnil ▸ .nil
      · exact hargs b.2 hmem
    have hsize : (st.child c.scope (c.params.bind args)).size = st.size + 1 := by simp
    exact ⟨hstore.child hscope hbindings, hsize ▸ Nat.lt_succ_self _⟩

namespace Evaluator

open Machine

/-- **A request keeps everything grounded,** and its answer refers to scopes that exist then. -/
theorem grounded_answer (limits : Limits) {e : Evaluator} {r : Request}
    (hr : grounding.OnRequest e.world.store r) (hstore : e.world.store.LooksBack) :
    (∀ v, (e.answer limits r).1 = .ok v → v.Within (e.answer limits r).2.world.store.size) ∧
      (e.answer limits r).2.world.store.LooksBack := by
  obtain ⟨hvalue, -, hstore'⟩ := grounding.answer limits hr hstore
  exact ⟨hvalue, hstore'⟩

/-- To begin with a request makes a scope at most. -/
theorem grows_start (limits : Limits) (e : Evaluator) (r : Request) :
    e.world.store.Grows (r.start limits e).world.store := by
  cases r with
  | eval form scope => exact .refl
  | apply callee args => exact (calls_call callee args [] e.depth e.world).grows

/-- A request changes no scope. -/
theorem grows_answer (limits : Limits) (e : Evaluator) (r : Request) :
    e.world.store.Grows (e.answer limits r).2.world.store := by
  rw [answer_eq_finish]
  exact (grows_start limits e r).trans (grows_finish limits (r.start limits e))

theorem size_le_answer (limits : Limits) (e : Evaluator) (r : Request) :
    e.world.store.size ≤ (e.answer limits r).2.world.store.size :=
  (grows_answer limits e r).keptIn.size_le

end Evaluator

end OutlineLisp
