import OutlineLisp.Proofs.Machine.Requests
import OutlineLisp.Proofs.Scope.Growth
import OutlineLisp.Proofs.Value.Inheritance

/-!
# Invariants of the machine

The machine takes forms apart, looks names up, makes closures, hands values to primitives and enters
the bodies of closures. Something that is required of values, of forms in the scopes in which they
are evaluated, of the scopes themselves and of faults is an invariant if each of these operations
keeps it. Then it holds of all that waits on the stack, at every iteration, and of what a request is
answered.

## Main definitions

* `Form.Part`: a form that is evaluated as a part of another.
* `Machine.Invariant`: requirements that all operations keep.
* `Machine.Invariant.OnState`, `Machine.Invariant.OnResult`: what they say about states and results.

## Main results

* `Machine.Invariant.transition`: a step keeps an invariant.
* `Machine.Invariant.iteration`, `Machine.Invariant.answer`: so does a request, at every iteration
  and in its answer.
-/

namespace OutlineLisp

/-- A form that is evaluated as a part of another, in the same scope. -/
inductive Form.Part : Form → Form → Prop where
  | test (test consequent : Form) (alternative : Option Form) :
    Part (.cond test consequent alternative) test
  | consequent (test consequent : Form) (alternative : Option Form) :
    Part (.cond test consequent alternative) consequent
  | alternative (test consequent alternative : Form) :
    Part (.cond test consequent (some alternative)) alternative
  | operator (operator : Form) (operands : List Form) : Part (.call operator operands) operator
  | operand (operator : Form) {operands : List Form} {operand : Form} (h : operand ∈ operands) :
    Part (.call operator operands) operand

namespace Machine

/-- The faults that the machine itself finds, unbound names apart. -/
inductive Finds : Fault → Prop where
  | notCallable (shown : String) : Finds (.notCallable shown)
  | notPair (p : Primitive) : Finds (.notPair p)
  | mismatch (p : Primitive) (left right : ValueType) : Finds (.mismatch p left right)
  | exhausted (limit : Limit) : Finds (.exhausted limit)

/-- Requirements on values, on forms in scopes, on all scopes together and on faults that the
operations of the machine keep. -/
structure Invariant where
  value : Store → Value → Prop
  form : Store → ScopeId → Form → Prop
  store : Store → Prop
  fault : Fault → Prop
  /-- Values and forms stay as they are when scopes are made. -/
  value_mono : ∀ {st st' : Store} {v : Value}, value st v → st.KeptIn st' → value st' v
  form_mono : ∀ {st st' : Store} {scope : ScopeId} {f : Form}, form st scope f → st.KeptIn st' →
    form st' scope f
  /-- Forms are taken apart. -/
  part : ∀ {st : Store} {scope : ScopeId} {f g : Form}, form st scope f → f.Part g →
    form st scope g
  /-- Names are looked up, and may be found to be unbound. -/
  lookup : ∀ {st : Store} {scope : ScopeId} {x : String} {v : Value}, store st →
    st.lookup? scope x = some v → value st v
  unbound : ∀ {st : Store} {scope : ScopeId} {x : String}, form st scope (.symbol x) →
    st.lookup? scope x = none → fault (.unbound x)
  finds : ∀ {f : Fault}, Finds f → fault f
  /-- Closures are made, and primitives make values. -/
  closure : ∀ {st : Store} {scope : ScopeId} {ps : Params} {body : Form} (identity : ℕ),
    form st scope (.lambda ps body) → value st (.closure ⟨identity, ps, body, scope⟩)
  inherited : ∀ (st : Store) (fresh : ℕ), Value.Inherited fresh (value st)
  /-- A call makes a scope, in which a body is evaluated. -/
  enter : ∀ {st : Store} {c : Closure} {args : List Value}, store st → value st (.closure c) →
    (∀ v ∈ args, value st v) →
    store (st.child c.scope (c.params.bind args)) ∧
      form (st.child c.scope (c.params.bind args)) st.size c.body

namespace Invariant

variable (I : Invariant)

/-- What an invariant says about work that waits. -/
def OnFrame (st : Store) : Frame → Prop
  | .branch consequent alternative scope =>
    I.form st scope consequent ∧ ∀ f ∈ alternative, I.form st scope f
  | .operands _ operands scope values =>
    (∀ f ∈ operands, I.form st scope f) ∧ ∀ v ∈ values, I.value st v
  | .body => True

/-- What it says about what happens next. -/
def OnControl (st : Store) : Control → Prop
  | .eval form scope => I.form st scope form
  | .give v => I.value st v

/-- What it says about a state. -/
structure OnState (s : State) : Prop where
  control : I.OnControl s.world.store s.control
  stack : ∀ frame ∈ s.stack, I.OnFrame s.world.store frame
  store : I.store s.world.store

/-- What it says about a result. -/
structure OnResult (r : Result) : Prop where
  value : ∀ v, r.outcome = .ok v → I.value r.world.store v
  fault : ∀ f, r.outcome = .error f → I.fault f
  store : I.store r.world.store

/-- What it says about a step. -/
def OnStep : Step → Prop
  | .next s => I.OnState s
  | .stop r => I.OnResult r

/-- What it says about what is asked for. -/
def OnRequest (st : Store) : Request → Prop
  | .eval form scope => I.form st scope form
  | .apply callee args => I.value st callee ∧ ∀ v ∈ args, I.value st v

end Invariant

variable {I : Invariant} {limits : Limits} {stack : List Frame} {depth : ℕ} {w : World} {r : Step}

theorem Invariant.OnFrame.mono {st st' : Store} {frame : Frame} (h : I.OnFrame st frame)
    (hst : st.KeptIn st') : I.OnFrame st' frame := by
  cases frame with
  | branch consequent alternative scope =>
    exact ⟨I.form_mono h.1 hst, fun f hf => I.form_mono (h.2 f hf) hst⟩
  | operands operator operands scope values =>
    exact ⟨fun f hf => I.form_mono (h.1 f hf) hst, fun v hv => I.value_mono (h.2 v hv) hst⟩
  | body => trivial

theorem Invariant.OnStep.store (h : I.OnStep r) : I.store r.world.store := by
  cases r with
  | next s => exact Invariant.OnState.store h
  | stop r => exact Invariant.OnResult.store h

theorem Invariant.fail {f : Fault} (hf : I.fault f) (hstore : I.store w.store) (depth : ℕ) :
    I.OnStep (Machine.fail f depth w) := by
  refine ⟨nofun, fun f' hf' => ?_, hstore⟩
  obtain rfl := Except.error.inj hf'
  exact hf

/-! ### Steps -/

/-- A form begins to be evaluated. -/
theorem Begins.keeps {scope : ScopeId} {form : Form} (hr : Begins scope stack depth w form r)
    (hform : I.form w.store scope form) (hstack : ∀ frame ∈ stack, I.OnFrame w.store frame)
    (hstore : I.store w.store) : I.OnStep r := by
  have hplain := I.inherited w.store w.fresh
  cases hr with
  | nil => exact ⟨hplain.nil, hstack, hstore⟩
  | number x => exact ⟨hplain.number x, hstack, hstore⟩
  | text s => exact ⟨hplain.text s, hstack, hstore⟩
  | bound h => exact ⟨I.lookup hstore h, hstack, hstore⟩
  | unbound h => exact Invariant.fail (I.unbound hform h) hstore depth
  | lambda params body => exact ⟨I.closure w.fresh hform, hstack, hstore⟩
  | cond test consequent alternative =>
    refine ⟨I.part hform (.test _ _ _), List.forall_mem_cons.2 ⟨⟨?_, ?_⟩, hstack⟩, hstore⟩
    · exact I.part hform (.consequent _ _ _)
    · rintro f hf
      cases hf
      exact I.part hform (.alternative _ _ _)
  | call operator operands =>
    refine ⟨I.part hform (.operator _ _), List.forall_mem_cons.2 ⟨⟨?_, ?_⟩, hstack⟩, hstore⟩
    · exact fun f hf => I.part hform (.operand _ hf)
    · exact List.forall_mem_nil _

/-- A value is called with arguments. -/
theorem Calls.keeps {callee : Value} {args : List Value}
    (hr : Calls limits stack depth w callee args r) (hcallee : I.value w.store callee)
    (hargs : ∀ v ∈ args, I.value w.store v) (hstack : ∀ frame ∈ stack, I.OnFrame w.store frame)
    (hstore : I.store w.store) : I.OnStep r := by
  cases hr with
  | @answered p args v h =>
    have hw : (w.say (p.said? args)).draw.store = w.store := by simp
    have hv : I.value w.store v := Primitive.result_inherits (I.inherited w.store w.fresh) hargs h
    exact ⟨hw ▸ hv, hw ▸ hstack, hw ▸ hstore⟩
  | failed h =>
    refine Invariant.fail ?_ hstore depth
    rcases Primitive.of_result_eq_error h with rfl | rfl
    · exact I.finds (.mismatch _ _ _)
    · exact I.finds (.notPair _)
  | @entered c args _ =>
    obtain ⟨hstore', hbody⟩ := I.enter hstore hcallee hargs
    refine ⟨hbody, List.forall_mem_cons.2 ⟨trivial, fun frame hf => ?_⟩, hstore'⟩
    exact (hstack frame hf).mono (Store.keptIn_child _ _ _)
  | refused _ => exact Invariant.fail (I.finds (.exhausted _)) hstore depth
  | notCallable _ => exact Invariant.fail (I.finds (.notCallable _)) hstore depth

/-- A value is returned to work. -/
theorem Resumes.keeps {v : Value} {frame : Frame} (hr : Resumes limits v stack depth w frame r)
    (hv : I.value w.store v) (hframe : I.OnFrame w.store frame)
    (hstack : ∀ frame ∈ stack, I.OnFrame w.store frame) (hstore : I.store w.store) :
    I.OnStep r := by
  cases hr with
  | consequent _ => exact ⟨hframe.1, hstack, hstore⟩
  | alternative _ => exact ⟨hframe.2 _ rfl, hstack, hstore⟩
  | missing _ => exact ⟨(I.inherited w.store w.fresh).nil, hstack, hstore⟩
  | refused _ => exact Invariant.fail (I.finds (.notCallable _)) hstore depth
  | operand _ h =>
    refine ⟨hframe.1 _ (List.mem_of_getElem? h), List.forall_mem_cons.2 ⟨⟨hframe.1, ?_⟩, hstack⟩,
      hstore⟩
    exact List.forall_mem_cons.2 ⟨hv, hframe.2⟩
  | @call operator operands scope values args callee _ _ _ hvalues h =>
    -- The callee and its arguments are the values in their order, the last one included.
    have hall : ∀ u ∈ callee :: args, I.value w.store u := by
      rw [← hvalues]
      intro u hu
      exact List.forall_mem_cons.2 ⟨hv, hframe.2⟩ u (List.mem_reverse.1 hu)
    obtain ⟨hcallee, hargs⟩ := List.forall_mem_cons.1 hall
    exact h.keeps hcallee hargs hstack hstore
  | body => exact ⟨hv, hstack, hstore⟩

namespace Invariant

/-- **A step keeps an invariant.** -/
theorem transition {s : State} (hs : I.OnState s) (hr : Transition limits s r) : I.OnStep r := by
  cases hr with
  | spent _ => exact fail (w := World.tick _) (I.finds (.exhausted _)) hs.store _
  | begins _ hr => exact hr.keeps hs.control hs.stack hs.store
  | ends v depth w =>
    refine ⟨fun u hu => ?_, nofun, hs.store⟩
    obtain rfl := Except.ok.inj hu
    exact hs.control
  | resumes hr =>
    obtain ⟨hframe, hstack⟩ := List.forall_mem_cons.1 hs.stack
    exact hr.keeps hs.control hframe hstack hs.store

/-! ### Runs -/

/-- A run keeps an invariant to its end. -/
theorem finish (limits : Limits) (h : I.OnStep r) : I.OnResult (r.finish limits) := by
  cases r with
  | next s =>
    exact run_induction (P := I.OnState) (Q := I.OnResult) (fun _ _ hs htr => transition hs htr)
      (fun _ _ hs htr => transition hs htr) h
  | stop r => exact h

/-- It does so at every iteration. -/
theorem iteration (limits : Limits) (h : I.OnStep r) (n : ℕ) :
    I.OnStep ((Machine.iteration limits)^[n] r) := iterate_keeps (fun _ _ => transition) h n

/-! ### Requests -/

theorem start (limits : Limits) {e : Evaluator} {r : Request} (hr : I.OnRequest e.world.store r)
    (hstore : I.store e.world.store) : I.OnStep (r.start limits e) := by
  cases r with
  | eval form scope => exact ⟨hr, List.forall_mem_nil _, hstore⟩
  | apply callee args =>
    have hcalls : Calls limits [] e.depth e.world callee args ((Request.apply callee args).start
        limits e) := calls_call callee args [] e.depth e.world
    exact hcalls.keeps hr.1 hr.2 (List.forall_mem_nil _) hstore

/-- **A request keeps an invariant,** and it holds of the answer. -/
theorem answer (limits : Limits) {e : Evaluator} {r : Request} (hr : I.OnRequest e.world.store r)
    (hstore : I.store e.world.store) :
    (∀ v, (e.answer limits r).1 = .ok v → I.value (e.answer limits r).2.world.store v) ∧
      (∀ f, (e.answer limits r).1 = .error f → I.fault f) ∧
      I.store (e.answer limits r).2.world.store := by
  have h := finish limits (start limits hr hstore)
  rw [Evaluator.answer_eq_finish]
  exact ⟨h.value, h.fault, h.store⟩

end Invariant

end Machine

end OutlineLisp
