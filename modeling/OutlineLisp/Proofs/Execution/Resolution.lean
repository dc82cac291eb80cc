import Mathlib.Data.List.Basic
import OutlineLisp.Execution.Run
import OutlineLisp.Proofs.Execution.Registration
import OutlineLisp.Proofs.Machine.Resolution

/-!
# The names that a program needs

All definitions of a program are registered before anything is called, and registration binds their
names beside those of the primitives. So a run finds a name without a meaning only if the name is
free in the function of some definition and nothing in the program provides it, in whatever order
the definitions stand.

## Main definitions

* `Node.Needs`, `Node.Provides`: the names that are free in a program, and those that have a
  meaning there.

## Main results

* `Evaluator.of_bound?_register`, `Evaluator.exists_bound?_register`: what registration binds.
* `Run.needs_of_unbound`: the names without a meaning that a run can find.
-/

namespace OutlineLisp

namespace Node

/-- Whether a name is free in the function of some definition of a program. -/
def Needs (program : Node) (x : String) : Prop :=
  ∃ definition ∈ program.definitions, ∃ l,
    Lambda.ofDefinition definition = .ok (some l) ∧ l.toForm.Free x

/-- Whether a program has a meaning for a name, that of a primitive or that of a definition with
children. -/
def Provides (program : Node) (x : String) : Prop :=
  (∃ p : Primitive, p.name = x) ∨
    ∃ definition ∈ program.definitions, definition.children ≠ [] ∧ definition.text?.getD "" = x

end Node

namespace Evaluator

open Machine

variable {limits : Limits} {scope : ScopeId} {definitions : List Node} {e e' : Evaluator}
  {x : String} {v : Value}

theorem store_bindLambda (e : Evaluator) (scope : ScopeId) (name : String) (l : Lambda) :
    (e.bindLambda scope name l).world.store
      = e.world.store.define scope name (.closure ⟨e.world.fresh, l.params, l.body, scope⟩) := rfl

/-! ### The global scope -/

theorem steps_global : global.world.steps = 0 := rfl

theorem fresh_global : global.world.fresh = 0 := rfl

theorem depth_global : global.depth = 0 := rfl

theorem bound?_global (id : ScopeId) (x : String) :
    global.world.store.bound? id x
      = if id = globalScope then Primitive.bindings.reverse.lookup x else none := by
  cases id with
  | zero => rfl
  | succ id => rfl

/-- At first only primitives are bound. -/
theorem of_bound?_global {id : ScopeId} (h : global.world.store.bound? id x = some v) :
    ∃ p : Primitive, v = .primitive p := by
  rw [bound?_global] at h
  split at h
  · obtain ⟨p, -, hp⟩ := List.mem_map.1 (mem_of_lookup_reverse h)
    cases hp
    exact ⟨p, rfl⟩
  · cases h

theorem exists_bound?_global (p : Primitive) :
    ∃ v, global.world.store.bound? globalScope p.name = some v := by
  refine Option.ne_none_iff_exists'.1 fun hnone => ?_
  rw [bound?_global, if_pos rfl] at hnone
  have hmem : (p.name, Value.primitive p) ∈ Primitive.bindings.reverse :=
    List.mem_reverse.2 (List.mem_map_of_mem p.mem_all)
  simpa using List.lookup_eq_none_iff.1 hnone _ hmem

/-! ### Registration -/

/-- What is bound after registration was bound before, or is the closure of a definition with that
name. -/
theorem of_bound?_register (h : register limits scope definitions e = (.ok (), e'))
    (hscope : scope < e.world.store.size) {id : ScopeId}
    (hv : e'.world.store.bound? id x = some v) :
    e.world.store.bound? id x = some v ∨
      ∃ definition ∈ definitions, definition.text?.getD "" = x ∧
        ∃ l, Lambda.ofDefinition definition = .ok (some l) ∧
          ∃ identity, v = .closure ⟨identity, l.params, l.body, scope⟩ := by
  induction definitions generalizing e with
  | nil =>
    cases h
    exact .inl hv
  | cons definition definitions ih =>
    have hrest {P : Node → Prop} (h : ∃ d ∈ definitions, P d) :
        ∃ d ∈ definition :: definitions, P d := by
      obtain ⟨d, hd, hp⟩ := h
      exact ⟨d, List.mem_cons_of_mem _ hd, hp⟩
    rw [register_cons] at h
    split at h
    · cases h
    · exact (ih h hscope).imp_right hrest
    · next l hl =>
      split at h
      · rcases ih h (by rwa [store_bindLambda, Store.size_define]) with hbound | hlater
        · rw [store_bindLambda, Store.bound?_define hscope] at hbound
          split at hbound
          · next heq =>
            cases hbound
            exact .inr ⟨definition, List.mem_cons_self, heq.2.symm, l, hl, _, rfl⟩
          · exact .inl hbound
        · exact .inr (hrest hlater)
      · cases h

/-- After registration the names from before and those of all definitions with children are
bound. -/
theorem exists_bound?_register (h : register limits scope definitions e = (.ok (), e'))
    (hscope : scope < e.world.store.size)
    (hx : (∃ v, e.world.store.bound? scope x = some v) ∨
      ∃ definition ∈ definitions, definition.children ≠ [] ∧ definition.text?.getD "" = x) :
    ∃ v, e'.world.store.bound? scope x = some v := by
  induction definitions generalizing e with
  | nil =>
    cases h
    exact hx.resolve_right fun ⟨_, hd, _⟩ => absurd hd List.not_mem_nil
  | cons definition definitions ih =>
    rw [register_cons] at h
    split at h
    · cases h
    · next hnone =>
      refine ih h hscope (hx.imp_right ?_)
      rintro ⟨d, hd, hchildren, hname⟩
      rcases List.mem_cons.1 hd with rfl | hd
      · exact absurd (Lambda.ofDefinition_eq_none_iff.1 hnone) hchildren
      · exact ⟨d, hd, hchildren, hname⟩
    · next l hl =>
      split at h
      · refine ih h (by rwa [store_bindLambda, Store.size_define]) ?_
        rw [store_bindLambda, Store.bound?_define hscope]
        by_cases hname : x = definition.text?.getD ""
        · exact .inl ⟨_, if_pos ⟨rfl, hname⟩⟩
        · rw [if_neg fun h => hname h.2]
          refine hx.imp_right ?_
          rintro ⟨d, hd, hchildren, rfl⟩
          rcases List.mem_cons.1 hd with rfl | hd
          · exact absurd rfl hname
          · exact ⟨d, hd, hchildren, rfl⟩
      · cases h

/-- A registration that fails has met a definition that denotes a fault, or runs out of steps. -/
theorem denoted_of_register_eq_error {fault : Fault}
    (h : register limits scope definitions e = (.error fault, e')) :
    (∃ definition ∈ definitions, Lambda.ofDefinition definition = .error fault) ∨
      fault = .exhausted (.steps limits.steps) := by
  induction definitions generalizing e with
  | nil => cases h
  | cons definition definitions ih =>
    rw [register_cons] at h
    split at h
    · next fault' hfault =>
      cases h
      exact .inl ⟨definition, List.mem_cons_self, hfault⟩
    · exact (ih h).imp_left List.exists_mem_cons_of_exists
    · split at h
      · exact (ih h).imp_left List.exists_mem_cons_of_exists
      · cases h
        exact .inr rfl

/-- If all definitions denote functions, or nothing, registration can only run out of steps. -/
theorem of_register_eq_error {fault : Fault}
    (hdefinitions : ∀ definition ∈ definitions, ∃ l, Lambda.ofDefinition definition = .ok l)
    (h : register limits scope definitions e = (.error fault, e')) :
    fault = .exhausted (.steps limits.steps) := by
  refine (denoted_of_register_eq_error h).resolve_left ?_
  rintro ⟨definition, hd, hfault⟩
  obtain ⟨l, hl⟩ := hdefinitions definition hd
  rw [hfault] at hl
  cases hl

end Evaluator

namespace Run

open Machine

variable {limits : Limits} {program : Node}

/-- The names that are free in a program and that its global scope does not bind. -/
def Missing (program : Node) (e : Evaluator) (x : String) : Prop :=
  program.Needs x ∧ e.world.store.bound? Evaluator.globalScope x = none

theorem not_provides_of_missing {e : Evaluator}
    (h : Evaluator.global.register limits Evaluator.globalScope program.definitions = (.ok (), e))
    {x : String} (hx : Missing program e x) : ¬program.Provides x := by
  intro hprovides
  have hbound := Evaluator.exists_bound?_register h Nat.one_pos (x := x) (hprovides.imp_left ?_)
  · obtain ⟨v, hv⟩ := hbound
    rw [hx.2] at hv
    cases hv
  · rintro ⟨p, rfl⟩
    exact Evaluator.exists_bound?_global p

/-- After registration every value that is bound is resolved, the missing names apart. -/
theorem resolved_of_register {e : Evaluator}
    (h : Evaluator.global.register limits Evaluator.globalScope program.definitions = (.ok (), e)) :
    e.world.store.Resolved (Missing program e) := by
  intro id x v hv
  rcases Evaluator.of_bound?_register h Nat.one_pos hv with
    hglobal | ⟨definition, hmem, -, l, hl, identity, rfl⟩
  · obtain ⟨p, rfl⟩ := Evaluator.of_bound?_global hglobal
    exact .primitive p
  · -- The names that are free in the definition are looked up where all definitions are bound.
    refine .closure fun y hy => ?_
    cases hbound : e.world.store.bound? Evaluator.globalScope y with
    | none => exact .inl ⟨⟨definition, hmem, l, hl, hy⟩, hbound⟩
    | some v => exact .inr ⟨v, Store.lookup?_of_bound? hbound⟩

theorem missing_of_ofRegistered {missing : String → Prop} {e : Evaluator}
    (he : e.world.store.Resolved missing) {x : String}
    (h : (ofRegistered limits e).outcome = .error (.unbound x)) : missing x := by
  rw [ofRegistered] at h
  split at h
  · cases h
  · next main hmain =>
    have hr : (resolution missing).OnRequest e.world.store (.apply main []) :=
      ⟨he.lookup? hmain, List.forall_mem_nil _⟩
    split at h
    · cases h
    · next fault e' hfault =>
      cases h
      exact missing_of_answer hr he (congrArg Prod.fst hfault)

/-- **Programs whose names have meanings never find one without.** Let all definitions of a program
denote functions, or nothing. If a run ends with a name that has no meaning, then the name is free
in some definition, and it is neither a primitive nor a definition with children. So if all names
that the program needs are among those that it provides, no run ends in this way. -/
theorem needs_of_unbound (program : Node)
    (h : ∀ definition ∈ program.definitions, ∃ l, Lambda.ofDefinition definition = .ok l) :
    (∀ limits x, (ofProgram limits program).outcome = .error (.unbound x) →
      program.Needs x ∧ ¬program.Provides x) ∧
    ((∀ x, program.Needs x → program.Provides x) →
      ∀ limits x, (ofProgram limits program).outcome ≠ .error (.unbound x)) := by
  have hmain : ∀ limits x, (ofProgram limits program).outcome = .error (.unbound x) →
      program.Needs x ∧ ¬program.Provides x := by
    intro limits x hx
    rw [ofProgram] at hx
    split at hx
    · next e hreg =>
      have hmissing := missing_of_ofRegistered (resolved_of_register hreg) hx
      exact ⟨hmissing.1, not_provides_of_missing hreg hmissing⟩
    · next fault e hreg =>
      cases hx
      cases Evaluator.of_register_eq_error h hreg
  refine ⟨hmain, fun hall limits x hx => ?_⟩
  obtain ⟨hneeds, hprovides⟩ := hmain limits x hx
  exact hprovides (hall x hneeds)

/-! ### A program with a stray name -/

/-- A program whose `main` is a name that nothing provides. -/
def stray : Node :=
  { kind := .program
    children := [{ kind := .definition
                   value := some (.text entryPoint)
                   children := [{ kind := .expression, value := some (.text "speak") }] }] }

/-- The evaluator after its definition has been registered. -/
def strayed : Evaluator :=
  Evaluator.global.bindLambda Evaluator.globalScope entryPoint ⟨.nullary, .symbol "speak"⟩

theorem register_stray :
    Evaluator.global.register ⟨2, 1⟩ Evaluator.globalScope stray.definitions
      = (.ok (), strayed) := by
  cbv

theorem lookup?_main_strayed :
    strayed.world.store.lookup? Evaluator.globalScope entryPoint
      = some (.closure ⟨0, .nullary, .symbol "speak", Evaluator.globalScope⟩) :=
  Store.lookup?_of_bound? rfl

theorem lookup?_speak_strayed :
    strayed.world.store.lookup? Evaluator.globalScope "speak" = none := by
  rw [Store.lookup?_eq_or]
  rfl

theorem steps_strayed : strayed.world.steps = 1 := rfl

theorem depth_strayed : strayed.depth = 0 := rfl

theorem ofProgram_stray : (ofProgram ⟨2, 1⟩ stray).outcome = .error (.unbound "speak") := by
  rw [ofProgram, register_stray]
  simp only [ofRegistered, lookup?_main_strayed, Evaluator.apply_eq_finish]
  simp [call, fail, run_eq_finish, step, begin, Limits.exceeded, World.tick, World.enter,
    Store.lookup, Store.lookup?_child_self, lookup?_speak_strayed, depth_strayed, steps_strayed,
    Params.bind, Params.bindSlots]

/-- A run of this program finds the name without a meaning. -/
theorem needs_speak_of_unbound :
    (ofProgram ⟨2, 1⟩ stray).outcome = .error (.unbound "speak") ∧ stray.Needs "speak" ∧
      ¬stray.Provides "speak" := by
  have h : ∀ definition ∈ stray.definitions, ∃ l, Lambda.ofDefinition definition = .ok l := by
    intro definition hd
    obtain rfl := List.mem_singleton.1 hd
    exact ⟨some ⟨.nullary, .symbol "speak"⟩, by cbv⟩
  exact ⟨ofProgram_stray, (needs_of_unbound stray h).1 ⟨2, 1⟩ "speak" ofProgram_stray⟩

end Run

end OutlineLisp
