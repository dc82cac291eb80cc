import OutlineLisp.Proofs.Execution.Registration
import OutlineLisp.Proofs.Execution.Session
import OutlineLisp.Proofs.Machine.Provenance

/-!
# Identity over a history of uses

An evaluator is used for a while: definitions are registered, forms are evaluated and values called,
and what was answered is bound and handed back. Values with an identity are not written down by its
users; they come from the evaluator, or have been given an identity of their own when they were
made. Over all of this identity is sound. A new pair or closure is unlike everything before it,
values are passed on as they are, and what is the same has the same contents.

## Main definitions

* `Evaluator.History`: an evaluator after some uses, and the values that its users have.
* `Evaluator.IdentitySound`: what identity can be relied on for while a request is answered.
* `Evaluator.KeepsIdentity`: the same, whatever an evaluator is used for next.

## Main results

* `Evaluator.History.accounted`: identities are in order after any history.
* `Evaluator.History.keepsIdentity`: identity is sound after any history.
-/

namespace OutlineLisp

/-- Whether something is asked about values that are known: forms have no values in them. -/
def Request.Known (st : Store) (seen : List Value) : Request → Prop
  | .eval _ _ => True
  | .apply callee args => st.Knows seen callee ∧ ∀ v ∈ args, st.Knows seen v

namespace Evaluator

/-- An evaluator after some uses, and the values that its users have. -/
inductive History : List Value → Evaluator → Prop where
  /-- At first there is only the global scope, which binds plain values. -/
  | start {bindings : List (String × Value)} (h : ∀ b ∈ bindings, b.2.identity? = none) :
    History [] (newRoot {} bindings)
  /-- Definitions are registered, with success or not. -/
  | register {seen : List Value} {e : Evaluator} (h : History seen e) (limits : Limits)
    (definitions : List Node) : History seen (register limits globalScope definitions e).2
  /-- A form is evaluated or a value called, with success or not. -/
  | answer {seen : List Value} {e : Evaluator} (h : History seen e) (limits : Limits) {r : Request}
    (hr : r.Known e.world.store seen) :
    History ((e.answer limits r).1.toOption.toList ++ seen) (e.answer limits r).2
  /-- A value is bound in the global scope. -/
  | define {seen : List Value} {e : Evaluator} (h : History seen e) (name : String) {v : Value}
    (hv : e.world.store.Knows seen v) : History seen (e.define globalScope name v)
  /-- A name is looked up in a scope. -/
  | lookup {seen : List Value} {e : Evaluator} (h : History seen e) {scope : ScopeId}
    {name : String} {v : Value} (hv : e.world.store.lookup? scope name = some v) :
    History (v :: seen) e
  /-- A list is made. -/
  | list {seen : List Value} {e : Evaluator} (h : History seen e) {items : List Value}
    (hitems : ∀ v ∈ items, e.world.store.Knows seen v) :
    History (.list e.drawIdentity.1 items :: seen) e.drawIdentity.2
  /-- A closure is made. -/
  | closure {seen : List Value} {e : Evaluator} (h : History seen e) (params : Params) (body : Form)
    (scope : ScopeId) :
    History (.closure ⟨e.drawIdentity.1, params, body, scope⟩ :: seen) e.drawIdentity.2
  /-- A scope is made. -/
  | newScope {seen : List Value} {e : Evaluator} (h : History seen e) (parent : ScopeId)
    {bindings : List (String × Value)} (hbindings : ∀ b ∈ bindings, e.world.store.Knows seen b.2) :
    History seen (e.newScope parent bindings)
  /-- The global scope drops its bindings. -/
  | clear {seen : List Value} {e : Evaluator} (h : History seen e) :
    History seen (e.clear globalScope)

open Machine World

variable {limits : Limits} {seen : List Value} {e : Evaluator} {r : Request}

/-! ### Identities are in order -/

/-- What a request begins with is known. -/
theorem conserves_start (limits : Limits) (hr : r.Known e.world.store seen) :
    e.world.Conserves (r.start limits e).world seen ((r.start limits e).roots ++ seen) := by
  cases r with
  | eval form scope => exact conserves_eval form scope (List.Subset.refl _)
  | apply callee args =>
    exact (calls_call callee args [] e.depth e.world).conserves (List.Subset.refl _) hr.2

/-- A definition binds a closure that is new. -/
theorem conserves_bindLambda (name : String) (l : Lambda) :
    e.world.Conserves (e.bindLambda globalScope name l).world seen seen := by
  have hnew : (Value.closure ⟨e.world.fresh, l.params, l.body, globalScope⟩).identity?
      = some e.world.fresh := rfl
  refine conserves_of_new (Nat.lt_succ_self _) hnew eq_or_knows_of_closure fun u hu => ?_
  rcases hu with ⟨v, hmem, hv⟩ | ⟨id, x, v, hbound, hv⟩
  · exact .inr ((Store.knows_of_mem hmem).holds hv)
  · rcases Store.of_bound?_define hbound with rfl | hold
    · exact .inl hv
    · exact .inr (.inr ((Store.reaches_of_bound? hold seen).holds hv))

/-- What is made outside of the evaluator is new. -/
theorem conserves_draw {new : Value} (hnew : new.identity? = some e.world.fresh)
    (hholds : ∀ u, new.Holds u → u = new ∨ e.world.store.Knows seen u) :
    e.world.Conserves e.drawIdentity.2.world seen (new :: seen) :=
  conserves_of_new (Nat.lt_succ_self _) hnew hholds fun _ hu =>
    (Store.reaches_cons hu).imp_right .inr

theorem accounted_register (limits : Limits) (definitions : List Node)
    (h : e.world.Accounted seen) :
    (register limits globalScope definitions e).2.world.Accounted seen := by
  induction definitions generalizing e with
  | nil => exact h
  | cons definition definitions ih =>
    rw [register_cons]
    split
    · exact h
    · exact ih h
    · split
      · exact ih ((conserves_bindLambda _ _).accounted h)
      · exact ⟨h.below, h.unique⟩

/-- Scopes that bind what has been known do not bring identities out of order. -/
theorem accounted_of_bound {w : World} (h : w.Accounted seen) {st : Store}
    (hbound : ∀ id x v, st.bound? id x = some v → w.store.Knows seen v) :
    World.Accounted { w with store := st } seen := by
  have hconserves : w.Conserves { w with store := st } seen seen :=
    conserves_of_knows (Nat.le_refl _) fun _ hu =>
      Store.knows_of_reaches (fun _ hv => Store.knows_of_mem hv) hbound hu
  exact hconserves.accounted h

/-- Without scopes nothing can be reached. -/
theorem accounted_nil : World.Accounted {} [] := by
  have hnone (u : Value) : ¬Store.empty.Reaches [] u := by
    rintro (⟨v, ⟨⟩, -⟩ | ⟨id, x, v, hbound, -⟩)
    exact Nat.not_lt_zero id (Store.lt_size_of_bound? hbound)
  exact ⟨fun u i hu => absurd hu (hnone u), fun u v i hu => absurd hu (hnone u)⟩

/-- **Identities are in order** after any history. -/
theorem History.accounted (h : History seen e) : e.world.Accounted seen := by
  induction h with
  | @start bindings h =>
    -- The global scope is made as any other scope is, only that nothing is known yet.
    have hroot : Store.empty.child 0 bindings = Store.empty.root bindings := rfl
    have hplain : ∀ b ∈ bindings, Store.empty.Knows [] b.2 := fun b hb => .inl (h b hb)
    exact accounted_of_bound accounted_nil (hroot ▸ Store.knows_of_bound?_child hplain)
  | register _ limits definitions ih => exact accounted_register limits definitions ih
  | @answer seen e _ limits r hr ih =>
    rw [answer_eq_finish]
    exact accounted_finish limits ((conserves_start limits hr).accounted ih)
  | define _ name hv ih => exact accounted_of_bound ih (Store.knows_of_bound?_define hv _ name)
  | lookup _ hv ih =>
    refine (conserves_of_roots rfl (Nat.le_refl _) (List.forall_mem_cons.2 ⟨?_, ?_⟩)).accounted ih
    · exact .inr (Store.reaches_of_lookup? hv _)
    · exact fun _ hmem => Store.knows_of_mem hmem
  | list _ hitems ih => exact (conserves_draw rfl (eq_or_knows_of_list hitems)).accounted ih
  | closure _ params body scope ih =>
    exact (conserves_draw rfl eq_or_knows_of_closure).accounted ih
  | newScope _ parent hbindings ih =>
    exact accounted_of_bound ih (Store.knows_of_bound?_child hbindings)
  | clear _ ih => exact accounted_of_bound ih (Store.knows_of_bound?_clear _ globalScope)

/-! ### Identity is sound -/

/-- What identity can be relied on for while a request is answered, and afterwards. -/
structure IdentitySound (limits : Limits) (seen : List Value) (e : Evaluator) (r : Request) :
    Prop where
  /-- At every iteration it tells apart what was made apart, what is new is unlike all else, and
  values are passed on as they are. -/
  soundAt : ∀ k, SoundAt limits seen ((iteration limits)^[k] (r.start limits e))
  /-- Whatever has an identity and can be reached only from some iteration on is unlike all that
  could be reached at any iteration before. -/
  new : ∀ k l, k ≤ l → ∀ v i, v.identity? = some i →
    ((iteration limits)^[l + 1] (r.start limits e)).Reaches seen v →
    ¬((iteration limits)^[l] (r.start limits e)).Reaches seen v →
    v.Unlike (((iteration limits)^[k] (r.start limits e)).Reaches seen)
  /-- What a name means at some iteration it means at every later one. -/
  settled : ∀ k l, k ≤ l → ∀ scope x v,
    (scopesAt limits (r.start limits e) k).lookup? scope x = some v →
    (scopesAt limits (r.start limits e) l).lookup? scope x = some v
  /-- A call from outside passes values on, too. -/
  applied : ∀ callee args, r = .apply callee args →
    Call.Passes limits e.depth (e.world.store.Reaches seen) ⟨callee, args⟩ (r.start limits e)

theorem identitySound_of_accounted (limits : Limits) (h : e.world.Accounted seen)
    (hr : r.Known e.world.store seen) : IdentitySound limits seen e r where
  soundAt k :=
    soundAt_of_accounted (accounted_iterate limits ((conserves_start limits hr).accounted h) k)
  new k l hkl v i hi hafter hbefore := by
    obtain ⟨made, horigin⟩ := (conserves_iteration limits _ seen).origin
    rw [Function.iterate_succ_apply'] at hafter
    obtain hold | ⟨-, rfl, -⟩ := horigin v i hafter hi
    · exact absurd hold hbefore
    · have haccounted := accounted_iterate limits ((conserves_start limits hr).accounted h) k
      exact haccounted.unlike (fresh_le_iterate limits _ hkl) hi
  settled k l hkl scope x v hv := (grows_scopesAt limits _ hkl).keptIn.lookup?_of_some hv
  applied := by
    rintro callee args rfl
    exact passes_call limits h ⟨callee, args⟩ [] e.depth

/-- What identity can be relied on for after some uses of an evaluator, whatever it is used for
next. -/
structure KeepsIdentity (seen : List Value) (e : Evaluator) : Prop where
  /-- Anything may be asked about known values. -/
  requests : ∀ limits r, r.Known e.world.store seen → IdentitySound limits seen e r
  /-- A definition that is registered binds a closure that is unlike everything before it. -/
  registered : ∀ limits definition l, Lambda.ofDefinition definition = .ok (some l) →
    e.world.steps < limits.steps →
    ∃ c, (register limits globalScope [definition] e).2.world.store.lookup? globalScope
        (definition.text?.getD "") = some (.closure c) ∧
      c.params = l.params ∧ c.body = l.body ∧ c.scope = globalScope ∧
      (Value.closure c).Unlike (e.world.store.Reaches seen)
  /-- A name that is bound means the value itself, at every iteration of whatever is asked next. -/
  bound : ∀ name v limits (r : Request) k,
    (scopesAt limits (r.start limits (e.define globalScope name v)) k).lookup? globalScope name
      = some v

theorem lookup?_define_self (h : globalScope < e.world.store.size) (name : String) (v : Value) :
    (e.define globalScope name v).world.store.lookup? globalScope name = some v :=
  Store.lookup?_of_bound? ((Store.bound?_define h name v _ _).trans (if_pos ⟨rfl, rfl⟩))

/-- The global scope is always there. -/
theorem History.globalScope_lt (h : History seen e) : globalScope < e.world.store.size := by
  induction h with
  | start h => exact Nat.one_pos
  | register _ limits definitions ih => rwa [size_register]
  | answer _ limits _ ih => exact Nat.lt_of_lt_of_le ih (size_le_answer limits _ _)
  | @define _ e _ name v hv ih => exact ih.trans_eq (Store.size_define _ _ _ _).symm
  | lookup _ hv ih => exact ih
  | list _ hitems ih => exact ih
  | closure _ params body scope ih => exact ih
  | newScope _ parent hbindings ih => exact Nat.lt_of_lt_of_le ih (Store.keptIn_child _ _ _).size_le
  | clear _ ih => exact ih.trans_eq (Store.size_clear _ _).symm

/-- **Identity is sound** after any history. -/
theorem History.keepsIdentity (h : History seen e) : KeepsIdentity seen e where
  requests limits _ hr := identitySound_of_accounted limits h.accounted hr
  registered limits definition l hl hsteps := by
    have hregister : (Evaluator.register limits globalScope [definition] e).2
        = e.bindLambda globalScope (definition.text?.getD "") l := by
      rw [register_cons, hl]
      exact congrArg Prod.snd (if_pos hsteps)
    refine ⟨⟨e.world.fresh, l.params, l.body, globalScope⟩, ?_, rfl, rfl, rfl,
      h.accounted.unlike (Nat.le_refl _) rfl⟩
    rw [hregister]
    exact lookup?_define_self (e := { e with world := e.world.tick.draw }) h.globalScope_lt _ _
  bound name v limits r k := by
    have hlookup := lookup?_define_self h.globalScope_lt name v
    have hstart := grows_start limits (e.define globalScope name v) r
    exact (hstart.trans (grows_scopesAt limits _ k.zero_le)).keptIn.lookup?_of_some hlookup

/-! ### A pair that is bound -/

theorem history_global : History [] global := by
  refine .start fun b hb => ?_
  obtain ⟨p, -, rfl⟩ := List.mem_map.1 hb
  rfl

/-- The first pair. -/
def pair : Value := .list 0 [.nil, .nil]

/-- The evaluator after the first pair has been made and bound. -/
def paired : Evaluator :=
  define { global with world := global.world.draw } globalScope "p" pair

theorem history_paired : History [pair] paired := by
  have hanswer : global.answer ⟨9, 9⟩ (.apply (.primitive .cons) [])
      = (.ok pair, { global with world := global.world.draw }) := by
    rw [answer_eq_finish, Request.start, call, Primitive.result, Step.finish_next, run_eq_finish]
    rfl
  have h := history_global.answer ⟨9, 9⟩ (r := .apply (.primitive .cons) [])
    ⟨.inl rfl, List.forall_mem_nil _⟩
  rw [hanswer] at h
  exact h.define "p" (Store.knows_of_mem List.mem_cons_self)

/-- The pair keeps its identity. Later ones are unlike it, and if it is an item of one it is taken
out as it is. -/
theorem keepsIdentity_paired : History [pair] paired ∧ KeepsIdentity [pair] paired :=
  ⟨history_paired, history_paired.keepsIdentity⟩

end Evaluator

end OutlineLisp
