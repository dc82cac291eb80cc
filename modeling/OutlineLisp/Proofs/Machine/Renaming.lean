import OutlineLisp.Execution.Registration
import OutlineLisp.Proofs.Machine.Termination
import OutlineLisp.Proofs.Machine.Transition
import OutlineLisp.Proofs.Value.Renaming

/-!
# Parameter names do not matter

A run of a form and a run of the form that results from it by renaming parameters go through states
that differ only in the choice of names: the same work waits, in scopes with the same numbers, and
every name is looked up where the other name is. So the runs say the same lines, take the same steps
and end in the same way. Only the text of an operator that is no function shows its names.

## Main definitions

* `Machine.State.Alpha`: states that differ only in the choice of names.
* `Machine.Result.Alpha`: the same for what runs end with.
* `Evaluator.SameUpToNames`: what evaluating a form and a renamed form have in common.

## Main results

* `Machine.alpha_step`, `Machine.alpha_run`: such states go the same way.
* `Evaluator.eval_renamed`: parameter names do not matter.
-/

namespace OutlineLisp

/-- Whether two worlds differ only in the choice of names: as many identities are given away, as
many steps taken, and the same lines said. -/
structure World.Alpha (w w' : World) : Prop where
  store : w.store.Alpha w'.store
  fresh : w'.fresh = w.fresh
  steps : w'.steps = w.steps
  lines : w'.lines = w.lines

namespace World.Alpha

variable {w w' : World}

theorem tick (h : w.Alpha w') : w.tick.Alpha w'.tick :=
  ⟨h.store, h.fresh, congrArg Nat.succ h.steps, h.lines⟩

theorem draw (h : w.Alpha w') : w.draw.Alpha w'.draw :=
  ⟨h.store, congrArg Nat.succ h.fresh, h.steps, h.lines⟩

theorem say (h : w.Alpha w') (line : Option String) : (w.say line).Alpha (w'.say line) := by
  cases line with
  | none => exact h
  | some line => exact ⟨h.store, h.fresh, h.steps, congrArg (Array.push · line) h.lines⟩

theorem enter (h : w.Alpha w') {scope : ScopeId} (hscope : scope < w.store.size) {ps : Params}
    {τ : String → String} {args args' : List Value}
    (hargs : List.Forall₂ (Value.Alpha w.store w'.store) args args') :
    (w.enter scope (ps.bind args)).Alpha (w'.enter scope ((ps.rename τ).bind args')) :=
  ⟨h.store.child hscope hargs, h.fresh, h.steps, h.lines⟩

end World.Alpha

namespace Machine

variable {st st' st₂ st₂' : Store}

/-! ### States that differ in names -/

/-- Whether work that waits differs only in the choice of names. -/
inductive Frame.Alpha (st st' : Store) : Frame → Frame → Prop where
  | guard {consequent consequent' : Form} {scope : ScopeId} (hscope : scope < st.size)
    (hc : Form.Alpha (st.corresponds st' scope) consequent consequent') :
    Alpha st st' (.branch consequent none scope) (.branch consequent' none scope)
  | branch {consequent consequent' form form' : Form} {scope : ScopeId} (hscope : scope < st.size)
    (hc : Form.Alpha (st.corresponds st' scope) consequent consequent')
    (ha : Form.Alpha (st.corresponds st' scope) form form') :
    Alpha st st' (.branch consequent (some form) scope) (.branch consequent' (some form') scope)
  | operands {operator operator' : Form} {forms forms' : List Form} {scope : ScopeId}
    {values values' : List Value} (hscope : scope < st.size)
    (h : Form.Alpha (st.corresponds st' scope) operator operator')
    (hforms : List.Forall₂ (Form.Alpha (st.corresponds st' scope)) forms forms')
    (hvalues : List.Forall₂ (Value.Alpha st st') values values') :
    Alpha st st' (.operands operator forms scope values) (.operands operator' forms' scope values')
  | body : Alpha st st' .body .body

/-- Whether what happens next differs only in the choice of names. -/
inductive Control.Alpha (st st' : Store) : Control → Control → Prop where
  | eval {form form' : Form} {scope : ScopeId} (hscope : scope < st.size)
    (h : Form.Alpha (st.corresponds st' scope) form form') :
    Alpha st st' (.eval form scope) (.eval form' scope)
  | give {v v' : Value} (h : Value.Alpha st st' v v') : Alpha st st' (.give v) (.give v')

/-- Whether two states differ only in the choice of names. -/
structure State.Alpha (s s' : State) : Prop where
  control : s.control.Alpha s.world.store s'.world.store s'.control
  stack : List.Forall₂ (Frame.Alpha s.world.store s'.world.store) s.stack s'.stack
  depth : s'.depth = s.depth
  world : s.world.Alpha s'.world

/-- Whether two outcomes differ only in the choice of names. They are values that do, or the same
fault; but where an operator is no function, each fault shows its own. -/
inductive OutcomeAlpha (st st' : Store) : Except Fault Value → Except Fault Value → Prop where
  | value {v v' : Value} (h : Value.Alpha st st' v v') : OutcomeAlpha st st' (.ok v) (.ok v')
  | fault (f : Fault) : OutcomeAlpha st st' (.error f) (.error f)
  | operator {operator operator' : Form} {scope : ScopeId} (hscope : scope < st.size)
    (h : Form.Alpha (st.corresponds st' scope) operator operator') :
    OutcomeAlpha st st' (.error (.notCallable operator.operatorText))
      (.error (.notCallable operator'.operatorText))

/-- Values that differ only in the choice of names show none of them. -/
theorem OutcomeAlpha.shown {outcome outcome' : Except Fault Value}
    (h : OutcomeAlpha st st' outcome outcome') {v v' : Value} (hv : outcome = .ok v)
    (hv' : outcome' = .ok v') :
    v'.display = v.display ∧ v'.truthy = v.truthy ∧ v'.type = v.type := by
  subst hv hv'
  cases h with
  | value h => exact ⟨h.display.symm, h.truthy.symm, h.type.symm⟩

/-- Whether runs end with what differs only in the choice of names. -/
structure Result.Alpha (r r' : Result) : Prop where
  outcome : OutcomeAlpha r.world.store r'.world.store r.outcome r'.outcome
  depth : r'.depth = r.depth
  world : r.world.Alpha r'.world

/-- The same for steps. -/
inductive Step.Alpha : Step → Step → Prop where
  | next {s s' : State} (h : s.Alpha s') : Alpha (.next s) (.next s')
  | stop {r r' : Result} (h : r.Alpha r') : Alpha (.stop r) (.stop r')

/-! ### Steps -/

variable {limits : Limits} {w w' : World} {stack stack' : List Frame}

theorem Frame.Alpha.mono {frame frame' : Frame} (hf : frame.Alpha st st' frame')
    (h : st.KeptIn st₂) (h' : st'.KeptIn st₂') (hsize : st'.size = st.size) :
    frame.Alpha st₂ st₂' frame' := by
  have hlt {scope : ScopeId} (hscope : scope < st.size) : scope < st₂.size :=
    Nat.lt_of_lt_of_le hscope h.size_le
  have hcorr {scope : ScopeId} (hscope : scope < st.size) :
      st₂.corresponds st₂' scope = st.corresponds st' scope :=
    Store.corresponds_of_keptIn h h' hsize hscope
  cases hf with
  | guard hscope hc =>
    rw [← hcorr hscope] at hc
    exact .guard (hlt hscope) hc
  | branch hscope hc ha =>
    rw [← hcorr hscope] at hc ha
    exact .branch (hlt hscope) hc ha
  | operands hscope hop hforms hvalues =>
    rw [← hcorr hscope] at hop hforms
    exact .operands (hlt hscope) hop hforms (hvalues.imp fun _ _ hv => hv.mono h h' hsize)
  | body => exact .body

theorem alpha_fail (f : Fault) (depth : ℕ) (hw : w.Alpha w') :
    (fail f depth w).Alpha (fail f depth w') := .stop ⟨.fault f, rfl, hw⟩

/-- Forms that differ only in the choice of names begin alike. -/
theorem alpha_begin {form form' : Form} {scope : ScopeId} (depth : ℕ)
    (hscope : scope < w.store.size)
    (hform : Form.Alpha (w.store.corresponds w'.store scope) form form')
    (hstack : List.Forall₂ (Frame.Alpha w.store w'.store) stack stack') (hw : w.Alpha w') :
    (begin form scope stack depth w).Alpha (begin form' scope stack' depth w') := by
  -- A closure is compared by its function as a whole, and not by its body.
  have hlambda := hform
  cases hform with
  | nil => exact .next ⟨.give .nil, hstack, rfl, hw⟩
  | number x => exact .next ⟨.give (.number x), hstack, rfl, hw⟩
  | text s => exact .next ⟨.give (.text s), hstack, rfl, hw⟩
  | symbol h =>
    rcases hw.store.lookup? h with ⟨v, v', hv, hv', hvv⟩ | ⟨hv, hv', rfl⟩
    · simp only [begin, Store.lookup, hv, hv']
      exact .next ⟨.give hvv, hstack, rfl, hw⟩
    · simp only [begin, Store.lookup, hv, hv']
      exact alpha_fail _ depth hw
  | lambda h =>
    simp only [begin, hw.fresh]
    exact .next ⟨.give (.closure w.fresh hscope hlambda), hstack, rfl, hw.draw⟩
  | guard ht hc =>
    exact .next ⟨.eval hscope ht, .cons (.guard hscope hc) hstack, rfl, hw⟩
  | branch ht hc ha =>
    exact .next ⟨.eval hscope ht, .cons (.branch hscope hc ha) hstack, rfl, hw⟩
  | call hop hlength hs =>
    have hforms := List.forall₂_iff_zip.2 ⟨hlength, fun hp => hs _ hp⟩
    exact .next ⟨.eval hscope hop, .cons (.operands hscope hop hforms .nil) hstack, rfl, hw⟩

/-- Values that differ only in the choice of names are called alike. -/
theorem alpha_call {callee callee' : Value} {args args' : List Value} (depth : ℕ)
    (hcallee : Value.Alpha w.store w'.store callee callee')
    (hargs : List.Forall₂ (Value.Alpha w.store w'.store) args args')
    (hstack : List.Forall₂ (Frame.Alpha w.store w'.store) stack stack') (hw : w.Alpha w') :
    (call limits callee args stack depth w).Alpha (call limits callee' args' stack' depth w') := by
  have hdisplay := hcallee.display
  cases hcallee with
  | primitive p =>
    have hresult := Primitive.answers_result p w.fresh hargs
    simp only [call, hw.fresh, ← Primitive.said?_congr p hargs]
    generalize p.result w.fresh args = r at hresult ⊢
    generalize p.result w.fresh args' = r' at hresult ⊢
    cases hresult with
    | value hv =>
      have hw' : ((w.say (p.said? args)).draw).Alpha ((w'.say (p.said? args)).draw) :=
        (hw.say _).draw
      exact .next ⟨.give (by simpa using hv), by simpa using hstack, rfl, hw'⟩
    | fault f => exact alpha_fail f depth hw
  | @closure identity ps _ body _ scope hscope h =>
    cases h with
    | @lambda _ τ _ _ body' hbody =>
      simp only [call]
      split
      · exact alpha_fail _ depth hw
      · -- The scopes of the two calls have one number, since there are as many before them.
        have hkept := Store.keptIn_child w.store scope (ps.bind args)
        have hkept' := Store.keptIn_child w'.store scope ((ps.rename τ).bind args')
        rw [← Store.corresponds_child args args' hw.store.size hscope] at hbody
        rw [hw.store.size]
        refine .next ⟨.eval ?_ hbody, .cons .body ?_, rfl, hw.enter hscope hargs⟩
        · rw [World.store_enter, Store.size_child]
          exact Nat.lt_succ_self _
        · exact hstack.imp fun _ _ hf => hf.mono hkept hkept' hw.store.size
  | list identity hlength h =>
    simp only [call, hdisplay]
    exact alpha_fail _ depth hw
  | _ => exact alpha_fail _ depth hw

theorem getElem?_forall₂ {α : Type} {R : α → α → Prop} {xs ys : List α} (h : List.Forall₂ R xs ys)
    (i : ℕ) :
    (∃ x y, xs[i]? = some x ∧ ys[i]? = some y ∧ R x y) ∨ xs[i]? = none ∧ ys[i]? = none := by
  by_cases hi : i < xs.length
  · have hi' : i < ys.length := h.length_eq ▸ hi
    exact .inl ⟨xs[i], ys[i], List.getElem?_eq_getElem hi, List.getElem?_eq_getElem hi',
      h.get hi hi'⟩
  · have hi' : ¬i < ys.length := h.length_eq ▸ hi
    exact .inr ⟨List.getElem?_eq_none (Nat.not_lt.1 hi), List.getElem?_eq_none (Nat.not_lt.1 hi')⟩

/-- Values that differ only in the choice of names are returned alike to a call that waits. -/
theorem alpha_collect {operator operator' : Form} {forms forms' : List Form} {scope : ScopeId}
    {values values' : List Value} {v v' : Value} (depth : ℕ) (hscope : scope < w.store.size)
    (hop : Form.Alpha (w.store.corresponds w'.store scope) operator operator')
    (hforms : List.Forall₂ (Form.Alpha (w.store.corresponds w'.store scope)) forms forms')
    (hvalues : List.Forall₂ (Value.Alpha w.store w'.store) values values')
    (hv : Value.Alpha w.store w'.store v v')
    (hstack : List.Forall₂ (Frame.Alpha w.store w'.store) stack stack') (hw : w.Alpha w') :
    (collect limits operator forms scope values v stack depth w).Alpha
      (collect limits operator' forms' scope values' v' stack' depth w') := by
  have hempty : values'.isEmpty = values.isEmpty := by cases hvalues <;> rfl
  have hreverse := List.rel_reverse (List.Forall₂.cons hv hvalues)
  rw [collect, collect, hempty, ← hv.callable, ← hvalues.length_eq]
  split
  · exact .stop ⟨.operator hscope hop, rfl, hw⟩
  · rcases getElem?_forall₂ hforms values.length with ⟨form, form', hf, hf', hform⟩ | ⟨hf, hf'⟩
    · rw [hf, hf']
      have hframe := Frame.Alpha.operands hscope hop hforms (.cons hv hvalues)
      exact .next ⟨.eval hscope hform, .cons hframe hstack, rfl, hw⟩
    · -- No operand is left: the values in their order are the callee and its arguments.
      rw [hf, hf']
      revert hreverse
      generalize (v :: values).reverse = all
      generalize (v' :: values').reverse = all'
      intro hreverse
      cases hreverse with
      | nil => exact .stop ⟨.operator hscope hop, rfl, hw⟩
      | cons hcallee hargs => exact alpha_call depth hcallee hargs hstack hw

/-- They are returned alike to any work that waits. -/
theorem alpha_resume {frame frame' : Frame} {v v' : Value} (depth : ℕ)
    (hv : Value.Alpha w.store w'.store v v') (hframe : frame.Alpha w.store w'.store frame')
    (hstack : List.Forall₂ (Frame.Alpha w.store w'.store) stack stack') (hw : w.Alpha w') :
    (resume limits v frame stack depth w).Alpha (resume limits v' frame' stack' depth w') := by
  cases hframe with
  | guard hscope hc =>
    simp only [resume, hv.truthy]
    split
    · exact .next ⟨.eval hscope hc, hstack, rfl, hw⟩
    · exact .next ⟨.give .nil, hstack, rfl, hw⟩
  | branch hscope hc ha =>
    simp only [resume, hv.truthy]
    split
    · exact .next ⟨.eval hscope hc, hstack, rfl, hw⟩
    · exact .next ⟨.eval hscope ha, hstack, rfl, hw⟩
  | operands hscope hop hforms hvalues =>
    exact alpha_collect depth hscope hop hforms hvalues hv hstack hw
  | body => exact .next ⟨.give hv, hstack, rfl, hw⟩

/-- **States that differ only in the choice of names go the same way.** -/
theorem alpha_step {s s' : State} (h : s.Alpha s') : (step limits s).Alpha (step limits s') := by
  obtain ⟨control, stack, depth, w⟩ := s
  obtain ⟨control', stack', depth', w'⟩ := s'
  obtain ⟨hcontrol, hstack, hdepth, hw⟩ := h
  obtain rfl : depth' = depth := hdepth
  cases hcontrol with
  | eval hscope hform =>
    have hexceeded : limits.exceeded w'.tick = limits.exceeded w.tick := by
      rw [Limits.exceeded, Limits.exceeded, hw.tick.steps]
    simp only [step, hexceeded]
    split
    · exact alpha_fail _ _ hw.tick
    · exact alpha_begin _ hscope hform hstack hw.tick
  | give hv =>
    cases hstack with
    | nil => exact .stop ⟨.value hv, rfl, hw⟩
    | cons hframe hstack => exact alpha_resume _ hv hframe hstack hw

/-! ### Runs -/

/-- **Runs from such states end in the same way.** -/
theorem alpha_run {s s' : State} (h : s.Alpha s') : (run limits s).Alpha (run limits s') := by
  -- The induction follows the first run; the second one goes along.
  induction halts limits s generalizing s' with
  | intro s _ ih =>
    have hstep : (step limits s).Alpha (step limits s') := alpha_step h
    rw [run_eq_finish, run_eq_finish limits s']
    generalize hr : step limits s = r at hstep ⊢
    generalize step limits s' = r' at hstep ⊢
    cases hstep with
    | next h => exact ih _ (proceed_of_step hr) h
    | stop h => exact h

end Machine

namespace Evaluator

open Machine

variable {limits : Limits} {e : Evaluator} {scope : ScopeId} {form form' : Form}

/-- What two evaluations have in common that differ only in the choice of names: the lines said, the
steps taken, and outcomes that show the names nowhere but in the text of an operator. -/
structure SameUpToNames (r r' : Except Fault Value × Evaluator) : Prop where
  lines : r'.2.world.lines = r.2.world.lines
  steps : r'.2.world.steps = r.2.world.steps
  depth : r'.2.depth = r.2.depth
  store : r.2.world.store.Alpha r'.2.world.store
  outcome : OutcomeAlpha r.2.world.store r'.2.world.store r.1 r'.1
  /-- The values are shown as the same text, hold alike as conditions and have the same type. -/
  shown : ∀ v v', r.1 = .ok v → r'.1 = .ok v' →
    v'.display = v.display ∧ v'.truthy = v.truthy ∧ v'.type = v.type

theorem sameUpToNames_eval (hstore : e.world.store.Intact) (hscope : scope < e.world.store.size)
    (h : Form.Alpha (e.world.store.corresponds e.world.store scope) form form') :
    SameUpToNames (e.eval limits form scope) (e.eval limits form' scope) := by
  have hworld : e.world.Alpha e.world := ⟨hstore.alpha, rfl, rfl, rfl⟩
  have hstart : State.Alpha ⟨.eval form scope, [], e.depth, e.world⟩
      ⟨.eval form' scope, [], e.depth, e.world⟩ := ⟨.eval hscope h, .nil, rfl, hworld⟩
  have hrun : (run limits _).Alpha (run limits _) := alpha_run hstart
  rw [eval_eq_finish, eval_eq_finish]
  exact ⟨hrun.world.lines, hrun.world.steps, rfl, hrun.world.store, hrun.outcome,
    fun _ _ hv hv' => hrun.outcome.shown hv hv'⟩

/-! ### Evaluators whose closures keep scopes

A scope is made before any closure that keeps it, so evaluators never come to hold a closure with
the number of a scope that does not exist yet. Definitions keep it so by `Store.Intact.define`. -/

/-- At first there are no closures. -/
theorem intact_global : global.world.store.Intact := by
  intro id b hb
  cases id with
  | zero =>
    have hmem : b ∈ Primitive.bindings.reverse ++ [] := hb
    rw [List.append_nil, List.mem_reverse] at hmem
    obtain ⟨p, -, rfl⟩ := List.mem_map.1 hmem
    exact .primitive p
  | succ id => cases hb

/-- The closures that there are after an evaluation, and those in its value, keep scopes that
exist. -/
theorem intact_eval (limits : Limits) (form : Form) (hstore : e.world.store.Intact)
    (hscope : scope < e.world.store.size) :
    (e.eval limits form scope).2.world.store.Intact ∧
      ∀ v, (e.eval limits form scope).1 = .ok v →
        v.Within (e.eval limits form scope).2.world.store.size := by
  have hform := Form.alpha_refl (e.world.store.corresponds_self scope) form
  have hsame : SameUpToNames (e.eval limits form scope) (e.eval limits form scope) :=
    sameUpToNames_eval hstore hscope hform
  refine ⟨hsame.store.intact, fun v hv => ?_⟩
  have houtcome := hsame.outcome
  rw [hv] at houtcome
  cases houtcome with
  | value hvv => exact hvv.within

/-! ### Renamed forms -/

/-- **Parameter names do not matter.** Let a form become another by renaming parameters to names
that are new in it. In every scope of an evaluator the two say the same lines and take the same
steps, and both yield values that differ only in the choice of names inside closures, or both fail
with the same fault; but if an operator is no function, the fault shows the operator under its own
names.

That closures keep scopes which exist says that no number dangles: it holds at first, after every
evaluation, and when a scope binds a name to a value that an evaluation has left. -/
theorem eval_renamed (limits : Limits) (hstore : e.world.store.Intact)
    (hscope : scope < e.world.store.size) (h : form.RenamedTo form') :
    SameUpToNames (e.eval limits form scope) (e.eval limits form' scope) :=
  sameUpToNames_eval hstore hscope (h.alpha (e.world.store.corresponds_self scope))

/-- A call of a function that returns its argument. -/
def given (name : String) : Form := .call (.lambda (.single name) (.symbol name)) [.text "hello"]

theorem renamedTo_given : (given "x").RenamedTo (given "y") := by
  let τ : String → String := fun a => if a = "x" then "y" else a
  have hτ : ∀ a, a ∉ (Params.single "x").names → τ a = id a := by
    intro a ha
    exact if_neg (by simpa [Params.names] using ha)
  have hs : ∀ p ∈ [Form.text "hello"].zip ([[]].zip [Form.text "hello"]),
      Form.Renames id p.2.1 p.1 p.2.2 := by
    intro p hp
    obtain rfl := List.mem_singleton.1 hp
    exact .text id "hello"
  refine ⟨_, .call (.lambda hτ (.symbol τ "x")) rfl rfl hs, by decide, fun a ha hmem => ?_⟩
  obtain rfl : a = "y" := List.mem_singleton.1 ha
  cases hmem with
  | operator h =>
    cases h with
    | parameter h => exact absurd h (by decide)
    | body h =>
      generalize hy : "y" = y at h
      cases h
      exact absurd hy (by decide)
  | operand hmem h =>
    obtain rfl := List.mem_singleton.1 hmem
    cases h

/-- The call yields the same whatever the parameter is called. -/
theorem eval_given_renamed :
    SameUpToNames (global.eval ⟨9, 9⟩ (given "x") globalScope)
      (global.eval ⟨9, 9⟩ (given "y") globalScope) :=
  eval_renamed ⟨9, 9⟩ intact_global (by decide) renamedTo_given

end Evaluator

end OutlineLisp
