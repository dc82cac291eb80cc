import OutlineLisp.Proofs.Form.Free
import OutlineLisp.Proofs.Machine.Invariant

/-!
# Names keep having a meaning

A closure keeps the scope in which it was made, and there every name that is free in it has a
meaning, or is one of the names that are *missing* from the start. A call binds all parameters of a
closure at once, whatever its arguments, and scopes are never changed; so in the new scope the names
that are free in the body have a meaning, too. So this is an invariant of the machine.

## Main definitions

* `Store.Resolves`: the names that are free in a form have a meaning in a scope.
* `Value.Resolved`, `Store.Resolved`: the same for closures in the scopes that they keep.
* `Machine.resolution`: the invariant.

## Main results

* `Machine.missing_of_answer`: a request finds no name without a meaning except those that are
  missing.
-/

namespace OutlineLisp

variable {missing : String → Prop} {st st' : Store}

/-! ### Forms, values and scopes -/

/-- Whether every name that is free in a form has a meaning in a scope or is missing. -/
def Store.Resolves (missing : String → Prop) (st : Store) (scope : ScopeId) (form : Form) : Prop :=
  ∀ x, form.Free x → missing x ∨ ∃ v, st.lookup? scope x = some v

/-- Whether the closures in a value are resolved in the scopes that they keep. -/
inductive Value.Resolved (missing : String → Prop) (st : Store) : Value → Prop where
  | number (x : Float) : Resolved missing st (.number x)
  | text (s : String) : Resolved missing st (.text s)
  | bool (b : Bool) : Resolved missing st (.bool b)
  | nil : Resolved missing st .nil
  | list {identity : Nat} {items : List Value} (h : ∀ item ∈ items, Resolved missing st item) :
    Resolved missing st (.list identity items)
  | closure {c : Closure} (h : st.Resolves missing c.scope (.lambda c.params c.body)) :
    Resolved missing st (.closure c)
  | primitive (p : Primitive) : Resolved missing st (.primitive p)

/-- Whether all values to which names are bound are resolved. -/
def Store.Resolved (missing : String → Prop) (st : Store) : Prop :=
  ∀ id x v, st.bound? id x = some v → v.Resolved missing st

theorem Form.Part.free {f g : Form} (h : f.Part g) {x : String} (hx : g.Free x) : f.Free x := by
  cases h with
  | test => exact .test hx
  | consequent => exact .consequent hx
  | alternative => exact .alternative hx
  | operator => exact .operator hx
  | operand _ hmem => exact .operand hmem hx

theorem Store.Resolves.mono {scope : ScopeId} {form : Form} (h : st.Resolves missing scope form)
    (hst : st.KeptIn st') : st'.Resolves missing scope form := by
  intro x hx
  refine (h x hx).imp_right ?_
  rintro ⟨v, hv⟩
  exact ⟨v, hst.lookup?_of_some hv⟩

theorem Value.Resolved.mono {v : Value} (h : v.Resolved missing st) (hst : st.KeptIn st') :
    v.Resolved missing st' := by
  induction h with
  | number x => exact .number x
  | text s => exact .text s
  | bool b => exact .bool b
  | nil => exact .nil
  | list _ ih => exact .list ih
  | closure h => exact .closure (h.mono hst)
  | primitive p => exact .primitive p

theorem Store.Resolved.lookup? (h : st.Resolved missing) {scope : ScopeId} {x : String} {v : Value}
    (hv : st.lookup? scope x = some v) : v.Resolved missing st := by
  obtain ⟨id, hid⟩ := exists_bound?_of_lookup? hv
  exact h id x v hid

/-- **The body of a closure is resolved in the scope of a call**, whatever the arguments are. -/
theorem Store.Resolves.child {scope : ScopeId} {ps : Params} {body : Form}
    (h : st.Resolves missing scope (.lambda ps body)) (args : List Value) :
    (st.child scope (ps.bind args)).Resolves missing st.size body := by
  intro x hx
  rw [lookup?_child_self]
  by_cases hps : x ∈ ps.names
  · obtain ⟨v, hv⟩ := Params.exists_lookup_bind hps args
    exact .inr ⟨v, by rw [hv, Option.some_or]⟩
  · refine (h x (.body hps hx)).imp_right ?_
    rintro ⟨v, hv⟩
    cases (ps.bind args).reverse.lookup x with
    | none => exact ⟨v, hv⟩
    | some v' => exact ⟨v', rfl⟩

theorem Store.Resolved.child (h : st.Resolved missing) {args : List Value}
    (hargs : ∀ v ∈ args, v.Resolved missing st) (scope : ScopeId) (ps : Params) :
    (st.child scope (ps.bind args)).Resolved missing := by
  intro id x v hv
  have hkept := keptIn_child st scope (ps.bind args)
  rw [bound?_child] at hv
  split at hv
  · rcases Params.of_lookup_bind hv with rfl | hmem
    · exact .nil
    · exact (hargs v hmem).mono hkept
  · exact (h id x v hv).mono hkept

/-- Whether closures are resolved goes from arguments to results. -/
theorem Value.inherited_resolved (missing : String → Prop) (st : Store) (fresh : Nat) :
    Inherited fresh (Resolved missing st) where
  number := .number
  text := .text
  bool := .bool
  nil := .nil
  item h := by
    cases h
    assumption
  pair ha hb := .list (by simp [ha, hb])

namespace Machine

/-! ### The invariant -/

/-- Names keep having a meaning, those apart that are missing. -/
def resolution (missing : String → Prop) : Invariant where
  value st v := v.Resolved missing st
  form st scope form := st.Resolves missing scope form
  store st := st.Resolved missing
  fault f := ∀ x, f = .unbound x → missing x
  value_mono h hst := h.mono hst
  form_mono h hst := h.mono hst
  part h hpart x hx := h x (hpart.free hx)
  lookup h hv := h.lookup? hv
  unbound := by
    intro st scope x h hnone y hy
    cases hy
    refine (h x .symbol).resolve_right ?_
    rintro ⟨v, hv⟩
    rw [hnone] at hv
    cases hv
  finds := by
    rintro _ ⟨⟩ x ⟨⟩
  closure _ h := .closure h
  inherited st fresh := Value.inherited_resolved missing st fresh
  enter := by
    intro st c args hstore hcallee hargs
    have hclosure : st.Resolves missing c.scope (.lambda c.params c.body) := by
      cases hcallee
      assumption
    exact ⟨hstore.child hargs c.scope c.params, hclosure.child args⟩

/-- **A request finds no name without a meaning** except those that are missing. -/
theorem missing_of_answer {limits : Limits} {e : Evaluator} {r : Request}
    (hr : (resolution missing).OnRequest e.world.store r) (he : e.world.store.Resolved missing)
    {x : String} (h : (e.answer limits r).1 = .error (.unbound x)) : missing x :=
  ((resolution missing).answer limits hr he).2.1 _ h x rfl

end Machine

end OutlineLisp
