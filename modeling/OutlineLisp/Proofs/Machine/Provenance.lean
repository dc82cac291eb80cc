import OutlineLisp.Proofs.Machine.Lines
import OutlineLisp.Proofs.Machine.Requests
import OutlineLisp.Proofs.Scope.Provenance

/-!
# Where the values of a run come from

The machine works with the values that are returned, that its stack has collected and that scopes
bind. What a step adds to these could be reached before, or it is plain, or it is the one list or
closure that the step makes. That one is given an identity that nothing before it has. So whatever
can be reached at one moment has different identities unless it is the same.

## Main definitions

* `World.Accounted`: identities tell apart whatever can be reached.
* `World.Conserves`: what can be reached afterwards could be reached before, or is new.
* `Machine.State.roots`, `Machine.Step.roots`: the values that the machine works with.
* `Machine.Call.Passes`: a call passes values on as they are.
* `Machine.SoundAt`: what identity can be relied on for at some moment.

## Main results

* `World.Conserves.accounted`: identities stay in order.
* `Machine.Transition.conserves`: where the values after a step come from.
* `Machine.accounted_iterate`: identities are in order at every iteration.
* `Machine.soundAt_of_accounted`: then identity can be relied on.
-/

namespace OutlineLisp

namespace World

variable {w w' w'' : World} {roots roots' : List Value} {u v new : Value}

/-- Whether identities tell apart whatever can be reached from the scopes and some roots, and all of
them have been given away. -/
structure Accounted (w : World) (roots : List Value) : Prop where
  below : ∀ u i, w.store.Reaches roots u → u.identity? = some i → i < w.fresh
  unique : ∀ u v i, w.store.Reaches roots u → w.store.Reaches roots v → u.identity? = some i →
    v.identity? = some i → u = v

/-- **What is given a later identity** is unlike all that can be reached. -/
theorem Accounted.unlike (h : w.Accounted roots) {n : ℕ} (hn : w.fresh ≤ n)
    (hv : v.identity? = some n) : v.Unlike (w.store.Reaches roots) := by
  intro u hu
  have hne : u.identity? ≠ v.identity? := fun heq =>
    Nat.not_lt.2 hn (h.below u n hu (heq.trans hv))
  exact ⟨Bool.eq_false_iff.2 fun hsame => hne (Value.identity?_eq_of_same hsame),
    Bool.eq_false_iff.2 fun hsame => hne (Value.identity?_eq_of_same hsame).symm⟩

/-- Whatever has an identity and is the same is one value. -/
theorem Accounted.eq_of_same (h : w.Accounted roots) (hu : w.store.Reaches roots u)
    (hv : w.store.Reaches roots v) {i : ℕ} (hi : u.identity? = some i) (hsame : u.same v = true) :
    u = v :=
  h.unique u v i hu hv hi ((Value.identity?_eq_of_same hsame).symm.trans hi)

/-- Whether whatever has an identity and can be reached afterwards could be reached before, or is
one new value, with the identity that was given away. -/
structure Conserves (w w' : World) (roots roots' : List Value) : Prop where
  fresh_le : w.fresh ≤ w'.fresh
  origin : ∃ new, ∀ u i, w'.store.Reaches roots' u → u.identity? = some i →
    w.store.Reaches roots u ∨ u = new ∧ i = w.fresh ∧ w.fresh < w'.fresh

/-- **Identities stay in order:** only one new value is given an identity. -/
theorem Conserves.accounted (h : w.Conserves w' roots roots') (hw : w.Accounted roots) :
    w'.Accounted roots' := by
  obtain ⟨new, horigin⟩ := h.origin
  refine ⟨fun u i hu hi => ?_, fun u v i hu hv hui hvi => ?_⟩
  · rcases horigin u i hu hi with hold | ⟨-, rfl, hlt⟩
    · exact Nat.lt_of_lt_of_le (hw.below u i hold hi) h.fresh_le
    · exact hlt
  · rcases horigin u i hu hui with hu | ⟨rfl, hi, -⟩ <;>
      rcases horigin v i hv hvi with hv | ⟨rfl, hi', -⟩
    · exact hw.unique u v i hu hv hui hvi
    · exact absurd (hw.below u i hu hui) (Nat.not_lt.2 (Nat.le_of_eq hi'.symm))
    · exact absurd (hw.below v i hv hvi) (Nat.not_lt.2 (Nat.le_of_eq hi.symm))
    · rfl

/-- Nothing new is made if all that can be reached afterwards has been known. -/
theorem conserves_of_knows (hfresh : w.fresh ≤ w'.fresh)
    (h : ∀ u, w'.store.Reaches roots' u → w.store.Knows roots u) : w.Conserves w' roots roots' := by
  refine ⟨hfresh, .nil, fun u i hu hi => .inl ?_⟩
  rcases h u hu with hplain | hreaches
  · rw [hplain] at hi
    cases hi
  · exact hreaches

/-- One new value is made if all else that can be reached afterwards has been known. -/
theorem conserves_of_new (hfresh : w.fresh < w'.fresh) (hnew : new.identity? = some w.fresh)
    (hholds : ∀ u, new.Holds u → u = new ∨ w.store.Knows roots u)
    (h : ∀ u, w'.store.Reaches roots' u → new.Holds u ∨ w.store.Knows roots u) :
    w.Conserves w' roots roots' := by
  refine ⟨Nat.le_of_lt hfresh, new, fun u i hu hi => ?_⟩
  rcases (h u hu).elim (hholds u) .inr with rfl | hplain | hreaches
  · exact .inr ⟨rfl, Option.some.inj (hi.symm.trans hnew), hfresh⟩
  · rw [hplain] at hi
    cases hi
  · exact .inl hreaches

/-- A closure holds nothing that is not new. -/
theorem eq_or_knows_of_closure {c : Closure} (u : Value) (h : (Value.closure c).Holds u) :
    u = .closure c ∨ w.store.Knows roots u := .inl h.eq_closure

/-- A list of known items holds nothing else that is not known. -/
theorem eq_or_knows_of_list {i : ℕ} {items : List Value}
    (hitems : ∀ item ∈ items, w.store.Knows roots item) (u : Value)
    (h : (Value.list i items).Holds u) : u = .list i items ∨ w.store.Knows roots u :=
  (Value.holds_list_iff.1 h).imp_right fun ⟨item, hmem, hu⟩ => (hitems item hmem).holds hu

end World

namespace Machine

/-! ### What the machine works with -/

/-- The value that is returned, if one is. -/
def Control.values : Control → List Value
  | .eval _ _ => []
  | .give v => [v]

/-- The values that work has collected. -/
def Frame.values : Frame → List Value
  | .operands _ _ _ values => values
  | .branch _ _ _ => []
  | .body => []

/-- The values that a state works with, those of its scopes apart. -/
def State.roots (s : State) : List Value := s.control.values ++ s.stack.flatMap Frame.values

/-- The values that a step leaves, those of the scopes apart. -/
def Step.roots : Step → List Value
  | .next s => s.roots
  | .stop r => r.outcome.toOption.toList

variable {limits : Limits} {stack : List Frame} {depth : ℕ} {w : World} {r : Step}
  {seen : List Value}

/-! ### Kinds of steps -/

section Kinds

variable {w' : World} {roots : List Value} {v new : Value}

/-- A step that makes nothing: the scopes stay, and all values have been known. -/
theorem conserves_of_roots {roots' : List Value} (hstore : w'.store = w.store)
    (hfresh : w.fresh ≤ w'.fresh) (h : ∀ v ∈ roots', w.store.Knows roots v) :
    w.Conserves w' roots roots' :=
  World.conserves_of_knows hfresh fun _ hu => Store.knows_of_reaches h
    (fun _ _ _ hbound => .inr (Store.reaches_of_bound? (hstore ▸ hbound) roots)) hu

/-- A step that fails. -/
theorem conserves_fail (fault : Fault) (hstore : w'.store = w.store) (hfresh : w.fresh ≤ w'.fresh)
    (hroots : seen ⊆ roots) : w.Conserves w' roots ((fail fault depth w').roots ++ seen) :=
  conserves_of_roots hstore hfresh fun _ hv => Store.knows_of_mem (hroots hv)

/-- A step after which a form is evaluated. -/
theorem conserves_eval (form : Form) (scope : ScopeId)
    (hroots : stack.flatMap Frame.values ++ seen ⊆ roots) :
    w.Conserves w roots ((Step.next ⟨.eval form scope, stack, depth, w⟩).roots ++ seen) :=
  conserves_of_roots rfl (Nat.le_refl _) fun _ hv => Store.knows_of_mem (hroots hv)

/-- A step that returns a value that has been known. -/
theorem conserves_give (hstore : w'.store = w.store) (hfresh : w.fresh ≤ w'.fresh)
    (hv : w.store.Knows roots v) (hroots : stack.flatMap Frame.values ++ seen ⊆ roots) :
    w.Conserves w' roots ((Step.next ⟨.give v, stack, depth, w'⟩).roots ++ seen) :=
  conserves_of_roots hstore hfresh
    (List.forall_mem_cons.2 ⟨hv, fun _ hmem => Store.knows_of_mem (hroots hmem)⟩)

/-- A step that returns a value that it makes. -/
theorem conserves_make (hstore : w'.store = w.store) (hfresh : w.fresh < w'.fresh)
    (hnew : new.identity? = some w.fresh)
    (hholds : ∀ u, new.Holds u → u = new ∨ w.store.Knows roots u)
    (hroots : stack.flatMap Frame.values ++ seen ⊆ roots) :
    w.Conserves w' roots ((Step.next ⟨.give new, stack, depth, w'⟩).roots ++ seen) := by
  refine World.conserves_of_new hfresh hnew hholds fun u hu => ?_
  rw [hstore] at hu
  exact (Store.reaches_cons hu).imp_right fun h => .inr (h.mono hroots)

end Kinds

/-! ### Steps -/

/-- Where values come from when a form begins to be evaluated. -/
theorem Begins.conserves {scope : ScopeId} {form : Form} (hr : Begins scope stack depth w form r)
    (seen : List Value) :
    w.Conserves r.world (stack.flatMap Frame.values ++ seen) (r.roots ++ seen) := by
  have hfresh : w.fresh ≤ w.fresh := Nat.le_refl _
  have hroots : stack.flatMap Frame.values ++ seen ⊆ stack.flatMap Frame.values ++ seen :=
    List.Subset.refl _
  cases hr with
  | nil | number x | text s => exact conserves_give rfl hfresh (.inl rfl) hroots
  | bound h => exact conserves_give rfl hfresh (.inr (Store.reaches_of_lookup? h _)) hroots
  | unbound h => exact conserves_fail _ rfl hfresh (List.subset_append_right _ _)
  | lambda params body =>
    exact conserves_make rfl (Nat.lt_succ_self _) rfl World.eq_or_knows_of_closure hroots
  | cond test consequent alternative => exact conserves_eval _ _ hroots
  | call operator operands => exact conserves_eval _ _ hroots

/-- Where values come from when a value is called with arguments that are known. -/
theorem Calls.conserves {callee : Value} {args roots : List Value}
    (hr : Calls limits stack depth w callee args r)
    (hroots : stack.flatMap Frame.values ++ seen ⊆ roots)
    (hargs : ∀ v ∈ args, w.store.Knows roots v) : w.Conserves r.world roots (r.roots ++ seen) := by
  have hseen : seen ⊆ roots := List.Subset.trans (List.subset_append_right _ _) hroots
  have hfresh : w.fresh ≤ w.fresh := Nat.le_refl _
  cases hr with
  | @answered p args v h =>
    have hstore : (w.say (p.said? args)).draw.store = w.store := by simp
    have hlt : w.fresh < (w.say (p.said? args)).draw.fresh := by
      cases p <;> exact Nat.lt_succ_self _
    rcases Primitive.result_cases h with (hplain | ⟨a, ha, hv⟩) | ⟨rfl, rfl⟩
    · exact conserves_give hstore (Nat.le_of_lt hlt) (.inl hplain) hroots
    · exact conserves_give hstore (Nat.le_of_lt hlt) ((hargs a ha).holds hv) hroots
    · have hoperand {v : Value} (hv : v = .nil ∨ v ∈ args) : w.store.Knows roots v := by
        rcases hv with rfl | hv
        · exact .inl rfl
        · exact hargs v hv
      have hitems : ∀ v ∈ [Value.first args, Value.second args], w.store.Knows roots v :=
        List.forall_mem_cons.2 ⟨hoperand (Value.first_eq_nil_or_mem args),
          List.forall_mem_singleton.2 (hoperand (Value.second_eq_nil_or_mem args))⟩
      exact conserves_make hstore hlt rfl (World.eq_or_knows_of_list hitems) hroots
  | failed h => exact conserves_fail _ rfl hfresh hseen
  | @entered c args h =>
    have hbindings : ∀ b ∈ c.params.bind args, w.store.Knows roots b.2 :=
      Params.knows_of_mem_bind hargs
    exact World.conserves_of_knows hfresh fun u hu =>
      Store.knows_of_reaches (fun v hv => Store.knows_of_mem (hroots hv))
        (Store.knows_of_bound?_child hbindings) hu
  | refused h => exact conserves_fail _ rfl hfresh hseen
  | notCallable h => exact conserves_fail _ rfl hfresh hseen

/-- Where values come from when a value is returned to work. -/
theorem Resumes.conserves {v : Value} {frame : Frame} (hr : Resumes limits v stack depth w frame r)
    (seen : List Value) :
    w.Conserves r.world (v :: (frame.values ++ (stack.flatMap Frame.values ++ seen)))
      (r.roots ++ seen) := by
  have hroots : stack.flatMap Frame.values ++ seen
      ⊆ v :: (frame.values ++ (stack.flatMap Frame.values ++ seen)) :=
    List.subset_cons_of_subset _ (List.subset_append_right _ _)
  have hseen : seen ⊆ v :: (frame.values ++ (stack.flatMap Frame.values ++ seen)) :=
    List.Subset.trans (List.subset_append_right _ _) hroots
  have hfresh : w.fresh ≤ w.fresh := Nat.le_refl _
  cases hr with
  | consequent _ | alternative _ => exact conserves_eval _ _ hroots
  | missing _ => exact conserves_give rfl hfresh (.inl rfl) hroots
  | refused _ => exact conserves_fail _ rfl hfresh hseen
  | operand _ _ => exact conserves_eval _ _ (List.append_assoc _ _ _ ▸ List.Subset.refl _)
  | @call _ _ _ values args callee _ _ _ hvalues h =>
    -- The arguments are values that the call has collected, the last one included.
    refine h.conserves hroots fun u hu => Store.knows_of_mem ?_
    have hmem : u ∈ (v :: values).reverse := hvalues ▸ List.mem_cons_of_mem callee hu
    exact List.mem_append_left _ (List.mem_reverse.1 hmem)
  | body => exact conserves_give rfl hfresh (Store.knows_of_mem List.mem_cons_self) hroots

/-- **Where the values after a step come from:** they could be reached before, or one of them is
new. -/
theorem Transition.conserves {s : State} (hr : Transition limits s r) (seen : List Value) :
    s.world.Conserves r.world (s.roots ++ seen) (r.roots ++ seen) := by
  cases hr with
  | @spent _ _ stack _ w _ =>
    have hfresh : w.fresh ≤ w.tick.fresh := Nat.le_refl _
    exact conserves_fail _ rfl hfresh (List.subset_append_right _ _)
  | @begins _ _ stack _ w r _ hr =>
    have h : w.Conserves r.world (stack.flatMap Frame.values ++ seen) (r.roots ++ seen) :=
      ⟨(hr.conserves seen).fresh_le, (hr.conserves seen).origin⟩
    exact h
  | ends v depth w =>
    exact conserves_of_roots rfl (Nat.le_refl _) fun _ hv => Store.knows_of_mem hv
  | @resumes v frame stack _ w r hr =>
    have hroots : (frame.values ++ stack.flatMap Frame.values) ++ seen
        = frame.values ++ (stack.flatMap Frame.values ++ seen) := List.append_assoc _ _ _
    have h := hr.conserves seen
    rw [← hroots] at h
    exact h

/-! ### Runs -/

/-- Where the values after an iteration come from. -/
theorem conserves_iteration (limits : Limits) (r : Step) (seen : List Value) :
    r.world.Conserves (iteration limits r).world (r.roots ++ seen)
      ((iteration limits r).roots ++ seen) := by
  cases r with
  | next s => exact (transition_step limits s).conserves seen
  | stop r => exact conserves_of_roots rfl (Nat.le_refl _) fun _ hv => Store.knows_of_mem hv

theorem fresh_le_iterate (limits : Limits) (start : Step) {k l : ℕ} (h : k ≤ l) :
    ((iteration limits)^[k] start).world.fresh ≤ ((iteration limits)^[l] start).world.fresh := by
  induction h with
  | refl => exact Nat.le_refl _
  | step _ ih =>
    rw [Function.iterate_succ_apply']
    exact Nat.le_trans ih (conserves_iteration limits _ []).fresh_le

/-- **Identities are in order at every iteration** if they are at first. -/
theorem accounted_iterate (limits : Limits) {start : Step}
    (h : start.world.Accounted (start.roots ++ seen)) (n : ℕ) :
    ((iteration limits)^[n] start).world.Accounted (((iteration limits)^[n] start).roots ++ seen) :=
  iterate_keeps (P := fun r => r.world.Accounted (r.roots ++ seen))
    (fun _ _ hs htr => (htr.conserves seen).accounted hs) h n

/-- They are at the end. -/
theorem accounted_finish (limits : Limits) {start : Step}
    (h : start.world.Accounted (start.roots ++ seen)) :
    (start.finish limits).world.Accounted
      ((Step.stop (start.finish limits)).roots ++ seen) := by
  cases start with
  | next s =>
    exact run_induction (P := fun s => s.world.Accounted (s.roots ++ seen))
      (Q := fun r => r.world.Accounted ((Step.stop r).roots ++ seen))
      (fun _ _ hs htr => (htr.conserves seen).accounted hs)
      (fun _ _ hs htr => (htr.conserves seen).accounted hs) h
  | stop r => exact h

/-! ### Telling apart and passing on -/

/-- The step that makes a call. -/
theorem exists_step_eq_call (limits : Limits) {s : State} {c : Call} (h : s.call? = some c) :
    ∃ stack, step limits s = call limits c.callee c.args stack s.depth s.world := by
  obtain ⟨callee, args⟩ := c
  obtain ⟨control, stack, depth, w⟩ := s
  cases control with
  | eval form scope => cases h
  | give v =>
    cases stack with
    | nil => cases h
    | cons frame stack =>
      cases frame with
      | branch consequent alternative scope => cases h
      | body => cases h
      | operands operator operands scope values =>
        rw [State.call?, Frame.call?] at h
        split at h
        · cases h
        · next hready =>
          rw [Bool.or_eq_true, not_or, decide_eq_true_eq, Nat.not_lt] at hready
          obtain ⟨hcallee, hargs⟩ := Call.mk.inj (Option.some.inj h)
          have hhead : (v :: values).reverse.head? = some callee := by
            rw [List.head?_reverse, List.getLast?_cons, hcallee]
          obtain ⟨rest, hvalues⟩ := List.head?_eq_some_iff.1 hhead
          obtain rfl : rest = args := by rw [← hargs, hvalues, List.tail_cons]
          refine ⟨stack, ?_⟩
          rw [step, resume, collect, if_neg hready.1, List.getElem?_eq_none hready.2, hvalues]

/-- Whether a value can be reached at some moment of a run: from the scopes, from the values that
the machine works with, or from others at hand. -/
def Step.Reaches (seen : List Value) (r : Step) (v : Value) : Prop :=
  r.world.store.Reaches (r.roots ++ seen) v

/-- How a call passes values on as they are. What comes of the call is given, and what was there
before it. -/
structure Call.Passes (limits : Limits) (depth : ℕ) (before : Value → Prop) (c : Call) (r : Step) :
    Prop where
  /-- The pair that `cons` makes has the operands as its items. It is unlike everything before. -/
  cons : c.callee = .primitive .cons → ∃ i t, r = .next t ∧
    t.control = .give (.list i [Value.first c.args, Value.second c.args]) ∧
    (Value.list i [Value.first c.args, Value.second c.args]).Unlike before
  /-- The first item is taken out of a list. -/
  car : c.callee = .primitive .car → ∀ i v items, Value.first c.args = .list i (v :: items) →
    ∃ t, r = .next t ∧ t.control = .give v
  /-- The second item is taken out of a list. -/
  cdr : c.callee = .primitive .cdr → ∀ i u v items,
    Value.first c.args = .list i (u :: v :: items) → ∃ t, r = .next t ∧ t.control = .give v
  /-- In the body of a closure a parameter means the argument of its last slot. -/
  closure : ∀ d : Closure, c.callee = .closure d → depth < limits.calls → ∃ t scope, r = .next t ∧
    t.control = .eval d.body scope ∧
      ∀ k x, d.params.slots[k]? = some (some x) → some x ∉ d.params.slots.drop (k + 1) →
        t.world.store.lookup? scope x = some (c.args[k]?.getD .nil)

/-- **How calls pass values on** when identities are in order. -/
theorem passes_call (limits : Limits) {roots : List Value} (h : w.Accounted roots) (c : Call)
    (stack : List Frame) (depth : ℕ) :
    c.Passes limits depth (w.store.Reaches roots)
      (call limits c.callee c.args stack depth w) where
  cons hcallee := by
    rw [hcallee]
    exact ⟨w.fresh, _, rfl, rfl, h.unlike (Nat.le_refl _) rfl⟩
  car hcallee i v items hfirst := by
    rw [hcallee, call, Primitive.result, hfirst]
    exact ⟨_, rfl, rfl⟩
  cdr hcallee i u v items hfirst := by
    rw [hcallee, call, Primitive.result, hfirst]
    exact ⟨_, rfl, rfl⟩
  closure d hcallee hdepth := by
    rw [hcallee, call, if_neg (Nat.not_le.2 hdepth)]
    refine ⟨_, w.store.size, rfl, rfl, fun k x hk hlast => ?_⟩
    rw [World.store_enter, Store.lookup?_child_self, Params.bind,
      Params.lookup_reverse_bindSlots hk hlast, Option.some_or]

/-- What identity can be relied on for at some moment of a run. -/
structure SoundAt (limits : Limits) (seen : List Value) (r : Step) : Prop where
  /-- Lists that are the same have the same items. -/
  list : ∀ i j items items', r.Reaches seen (.list i items) → r.Reaches seen (.list j items') →
    (Value.list i items).same (.list j items') = true → items = items'
  /-- Closures that are the same have the same parameters, body and scope. -/
  closure : ∀ c d : Closure, r.Reaches seen (.closure c) → r.Reaches seen (.closure d) →
    (Value.closure c).same (.closure d) = true →
    c.params = d.params ∧ c.body = d.body ∧ c.scope = d.scope
  /-- Lists and closures are the same as themselves. -/
  self : ∀ v i, r.Reaches seen v → v.identity? = some i → v.same v = true
  /-- A function that is evaluated becomes a closure that is unlike everything before it. -/
  lambda : ∀ s params body scope, r = .next s → s.control = .eval (.lambda params body) scope →
    s.world.steps < limits.steps → ∃ c t, step limits s = .next t ∧ t.control = .give (.closure c) ∧
      c.params = params ∧ c.body = body ∧ c.scope = scope ∧
      (Value.closure c).Unlike (r.Reaches seen)
  /-- A name that is evaluated becomes the value that it means. -/
  symbol : ∀ s x scope v, r = .next s → s.control = .eval (.symbol x) scope →
    s.world.steps < limits.steps → s.world.store.lookup? scope x = some v →
    ∃ t, step limits s = .next t ∧ t.control = .give v
  /-- The call that the next step makes passes values on. -/
  call : ∀ s c, r = .next s → s.call? = some c →
    c.Passes limits s.depth (r.Reaches seen) (step limits s)

/-- **Identity can be relied on** whenever identities are in order. -/
theorem soundAt_of_accounted {r : Step} (h : r.world.Accounted (r.roots ++ seen)) :
    SoundAt limits seen r where
  list i j items items' hu hv hsame := by
    cases h.eq_of_same hu hv rfl hsame
    rfl
  closure c d hu hv hsame := by
    cases h.eq_of_same hu hv rfl hsame
    exact ⟨rfl, rfl, rfl⟩
  self v i _ hi := Value.same_self (by rintro x rfl; cases hi)
  lambda := by
    rintro ⟨_, stack, depth, w⟩ params body scope rfl rfl hsteps
    exact ⟨⟨w.fresh, params, body, scope⟩, _, step_eq_begin hsteps, rfl, rfl, rfl, rfl,
      h.unlike (Nat.le_refl _) rfl⟩
  symbol := by
    rintro ⟨_, stack, depth, w⟩ x scope v rfl rfl hsteps hv
    have hbegin : begin (.symbol x) scope stack depth w.tick
        = .next ⟨.give v, stack, depth, w.tick⟩ := by
      rw [begin, Store.lookup, World.store_tick, hv]
    exact ⟨_, (step_eq_begin hsteps).trans hbegin, rfl⟩
  call := by
    rintro s c rfl hcall
    obtain ⟨stack, hstep⟩ := exists_step_eq_call limits hcall
    rw [hstep]
    exact passes_call limits h c stack s.depth

end Machine

end OutlineLisp
