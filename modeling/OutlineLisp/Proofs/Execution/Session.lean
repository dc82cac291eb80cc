import OutlineLisp.Proofs.Execution.Order
import OutlineLisp.Proofs.Machine.References

/-!
# How evaluators are used

An evaluator starts with a global scope. Whoever uses it registers definitions there, asks for
evaluations and calls, looks names up, and binds what was answered in the global scope, in any order
and as often as wanted. Only binding may make circles of references: what was answered can be a
closure that keeps a scope made by a call, and that scope leads back to the global one. So every
circle leads through the global scope, and once that has dropped its bindings there is none.

A run is such a use, too.

## Main definitions

* `Value.Made`: the values that can be handed to an evaluator.
* `Evaluator.Session`: an evaluator after any use, and what it has answered.

## Main results

* `Run.exists_session`: a run is a session.
* `Evaluator.Session.references_founded`: no circle of references avoids the global scope, in any
  session or run.
-/

namespace OutlineLisp

/-- The values that can be handed to an evaluator: those that have been seen, plain data, functions
over scopes with numbers below a bound, and lists of all these. -/
inductive Value.Made (seen : List Value) (n : ℕ) : Value → Prop where
  | seen {v : Value} (h : v ∈ seen) : Made seen n v
  | number (x : Float) : Made seen n (.number x)
  | text (s : String) : Made seen n (.text s)
  | bool (b : Bool) : Made seen n (.bool b)
  | nil : Made seen n .nil
  | list (identity : ℕ) {items : List Value} (h : ∀ item ∈ items, Made seen n item) :
    Made seen n (.list identity items)
  | closure {c : Closure} (h : c.scope < n) : Made seen n (.closure c)
  | primitive (p : Primitive) : Made seen n (.primitive p)

theorem Value.Made.within {seen : List Value} {n : ℕ} {v : Value} (h : v.Made seen n)
    (hseen : ∀ u ∈ seen, u.Within n) : v.Within n := by
  induction h with
  | seen h => exact hseen _ h
  | number x => exact .number x
  | text s => exact .text s
  | bool b => exact .bool b
  | nil => exact .nil
  | list identity _ ih => exact .list identity ih
  | closure h => exact .closure h
  | primitive p => exact .primitive p

/-- Whether something can be asked of an evaluator: to evaluate any form in a scope that exists, and
to call any value with any arguments. -/
def Request.Possible (seen : List Value) (n : ℕ) : Request → Prop
  | .eval _ scope => scope < n
  | .apply callee args => callee.Made seen n ∧ ∀ v ∈ args, v.Made seen n

theorem Request.Possible.grounded {seen : List Value} {st : Store} {r : Request}
    (h : r.Possible seen st.size) (hseen : ∀ u ∈ seen, u.Within st.size) :
    Machine.grounding.OnRequest st r := by
  cases r with
  | eval form scope => exact h
  | apply callee args => exact ⟨h.1.within hseen, fun v hv => (h.2 v hv).within hseen⟩

namespace Evaluator

/-- An evaluator after any use, and the values that it has answered. -/
inductive Session : List Value → Evaluator → Prop where
  /-- At first there is only the global scope. -/
  | start {bindings : List (String × Value)} (h : ∀ b ∈ bindings, b.2.Made [] 0) :
    Session [] (newRoot {} bindings)
  /-- Definitions are registered, with success or not. -/
  | register {seen : List Value} {e : Evaluator} (h : Session seen e) (limits : Limits)
    (definitions : List Node) : Session seen (register limits globalScope definitions e).2
  /-- A value is bound in the global scope. -/
  | define {seen : List Value} {e : Evaluator} (h : Session seen e) (name : String) {v : Value}
    (hv : v.Made seen e.world.store.size) : Session seen (e.define globalScope name v)
  /-- A scope is made. -/
  | newScope {seen : List Value} {e : Evaluator} (h : Session seen e) {parent : ScopeId}
    (hparent : parent < e.world.store.size) {bindings : List (String × Value)}
    (hbindings : ∀ b ∈ bindings, b.2.Made seen e.world.store.size) :
    Session seen (e.newScope parent bindings)
  /-- The global scope drops its bindings. -/
  | clear {seen : List Value} {e : Evaluator} (h : Session seen e) :
    Session seen (e.clear globalScope)
  /-- A form is evaluated or a value called, with success or not. -/
  | answer {seen : List Value} {e : Evaluator} (h : Session seen e) (limits : Limits) {r : Request}
    (hr : r.Possible seen e.world.store.size) :
    Session ((e.answer limits r).1.toOption.toList ++ seen) (e.answer limits r).2
  /-- A name is looked up in a scope. -/
  | lookup {seen : List Value} {e : Evaluator} (h : Session seen e) {scope : ScopeId}
    {name : String} {v : Value} (hv : e.world.store.lookup? scope name = some v) :
    Session (v :: seen) e

/-! ### Registration -/

theorem size_register (limits : Limits) (scope : ScopeId) (definitions : List Node)
    (e : Evaluator) :
    (register limits scope definitions e).2.world.store.size = e.world.store.size := by
  induction definitions generalizing e with
  | nil => rfl
  | cons definition definitions ih =>
    rw [register_cons]
    split
    · rfl
    · exact ih e
    · split
      · rw [ih, store_bindLambda, Store.size_define]
      · rfl

theorem looksBack_register (limits : Limits) (definitions : List Node) {e : Evaluator}
    (h : e.world.store.LooksBack) :
    (register limits globalScope definitions e).2.world.store.LooksBack := by
  induction definitions generalizing e with
  | nil => exact h
  | cons definition definitions ih =>
    rw [register_cons]
    split
    · exact h
    · exact ih h
    · split
      · exact ih (h.define (.closure h.size_pos) _)
      · exact h

namespace Session

variable {seen : List Value} {e : Evaluator}

/-- What all uses keep: scopes look back, and the values that were answered refer to scopes that
exist. -/
theorem looksBack (h : Session seen e) :
    e.world.store.LooksBack ∧ ∀ v ∈ seen, v.Within e.world.store.size := by
  induction h with
  | start h =>
    exact ⟨.root fun b hb => (h b hb).within (List.forall_mem_nil _), List.forall_mem_nil _⟩
  | register _ limits definitions ih =>
    refine ⟨looksBack_register limits definitions ih.1, fun v hv => ?_⟩
    rw [size_register]
    exact ih.2 v hv
  | define _ name hv ih =>
    refine ⟨ih.1.define (hv.within ih.2) name, fun u hu => ?_⟩
    exact (ih.2 u hu).mono (Nat.le_of_eq (Store.size_define _ _ _ _).symm)
  | newScope _ hparent hbindings ih =>
    refine ⟨ih.1.child hparent fun b hb => (hbindings b hb).within ih.2, fun u hu => ?_⟩
    exact (ih.2 u hu).mono (Store.keptIn_child _ _ _).size_le
  | clear _ ih =>
    refine ⟨ih.1.clear, fun u hu => ?_⟩
    exact (ih.2 u hu).mono (Nat.le_of_eq (Store.size_clear _ _).symm)
  | @answer seen e _ limits r hr ih =>
    obtain ⟨hvalue, hstore⟩ := grounded_answer limits (hr.grounded ih.2) ih.1
    refine ⟨hstore, List.forall_mem_append.2 ⟨fun v hv => hvalue v ?_, fun v hv => ?_⟩⟩
    · rw [Option.mem_toList, Except.toOption.eq_def] at hv
      split at hv
      · cases hv
        assumption
      · cases hv
    · exact (ih.2 v hv).mono (size_le_answer limits e r)
  | lookup _ hv ih => exact ⟨ih.1, List.forall_mem_cons.2 ⟨ih.1.within_of_lookup? hv, ih.2⟩⟩

end Session

theorem session_global : Session [] global := by
  refine .start fun b hb => ?_
  obtain ⟨p, -, rfl⟩ := List.mem_map.1 hb
  exact .primitive p

end Evaluator

/-- **A run is a session,** up to the world that it leaves. -/
theorem Run.exists_session (limits : Limits) (program : Node) :
    ∃ seen e, Evaluator.Session seen e ∧ e.world = (play limits program).2 := by
  have hregistered : Evaluator.Session [] (registration limits program).2 :=
    Evaluator.session_global.register limits program.definitions
  rw [play]
  split
  · rw [playRegistered]
    split
    · exact ⟨_, _, hregistered, rfl⟩
    · next main hmain =>
      have hr : (Request.apply main []).Possible [main]
          (registration limits program).2.world.store.size :=
        ⟨.seen List.mem_cons_self, List.forall_mem_nil _⟩
      exact ⟨_, _, (hregistered.lookup hmain).answer limits hr, rfl⟩
  · exact ⟨_, _, hregistered, rfl⟩

/-- **No circle of references avoids the global scope.** This holds after any use of an evaluator,
at every iteration while it answers a request, and after every run. -/
theorem Evaluator.Session.references_founded :
    (∀ seen e, Session seen e → e.world.store.Founded ∧
      ∀ (limits : Limits) (r : Request), r.Possible seen e.world.store.size →
        ∀ k, ((Machine.iteration limits)^[k] (r.start limits e)).world.store.Founded) ∧
    ∀ limits program, (Run.play limits program).2.store.Founded := by
  refine ⟨fun seen e h => ?_, fun limits program => ?_⟩
  · obtain ⟨hstore, hseen⟩ := h.looksBack
    refine ⟨hstore.founded, fun limits r hr k => ?_⟩
    have hstart := Machine.grounding.start limits (hr.grounded hseen) hstore
    exact (Machine.grounding.iteration limits hstart k).store.founded
  · obtain ⟨seen, e, h, hworld⟩ := Run.exists_session limits program
    rw [← hworld]
    exact h.looksBack.1.founded

/-! ### A circle through the global scope -/

namespace Evaluator

/-- A function over the global scope that returns nil. -/
def idle (identity : ℕ) : Value := .closure ⟨identity, .nullary, .nil, globalScope⟩

/-- A call that answers a function over the scope of the call, which binds another function. -/
def keeper : Form :=
  .call (.lambda (.single "f") (.lambda .nullary (.symbol "f"))) [.lambda .nullary .nil]

/-- The function that it answers. -/
def kept : Value := .closure ⟨2, .nullary, .symbol "f", 1⟩

/-- The evaluator after it has answered. -/
def afterKeeper : Evaluator where
  world := { global.world with
    store := global.world.store.child globalScope [("f", idle 1)]
    fresh := 3
    steps := 4 }

theorem answer_keeper :
    global.answer ⟨9, 9⟩ (.eval keeper globalScope) = (.ok kept, afterKeeper) := by
  rw [answer_eq_finish]
  simp [Request.start, Machine.run_eq_finish, Machine.step, keeper, Machine.begin, Machine.resume,
    Machine.collect, Machine.call, Limits.exceeded, World.tick, World.draw, World.enter,
    Params.bind, Params.bindSlots, Value.callable, steps_global, fresh_global, depth_global]
  exact ⟨rfl, rfl⟩

/-- The evaluator after the global scope has bound the function. -/
def closed : Evaluator := afterKeeper.define globalScope "kept" kept

theorem session_closed : Session [kept] closed := by
  have h := session_global.answer ⟨9, 9⟩ (r := .eval keeper globalScope) Nat.one_pos
  rw [answer_keeper] at h
  exact h.define "kept" (.seen List.mem_cons_self)

theorem refers_closed : closed.world.store.Refers 0 1 ∧ closed.world.store.Refers 1 0 :=
  ⟨.inr ⟨"kept", kept, rfl, .closure rfl⟩, .inr ⟨"f", idle 1, rfl, .closure rfl⟩⟩

/-- The global scope refers to the scope of the call, which refers to the global one. This circle
is gone when the global scope has dropped its bindings. -/
theorem references_founded_closed :
    Session [kept] closed ∧ closed.world.store.Refers 0 1 ∧ closed.world.store.Refers 1 0 ∧
      closed.world.store.Founded ∧ (Request.apply kept []).Possible [kept] closed.world.store.size ∧
      ∀ k, ((Machine.iteration ⟨9, 9⟩)^[k]
        ((Request.apply kept []).start ⟨9, 9⟩ closed)).world.store.Founded := by
  obtain ⟨hfounded, hrequests⟩ := Session.references_founded.1 [kept] closed session_closed
  have hpossible : (Request.apply kept []).Possible [kept] closed.world.store.size :=
    ⟨.seen List.mem_cons_self, List.forall_mem_nil _⟩
  exact ⟨session_closed, refers_closed.1, refers_closed.2, hfounded, hpossible,
    hrequests ⟨9, 9⟩ _ hpossible⟩

end Evaluator

end OutlineLisp
