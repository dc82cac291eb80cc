import Mathlib.Data.List.Induction
import OutlineLisp.Proofs.Execution.Application
import OutlineLisp.Proofs.Execution.Order

/-!
# What registration leaves

Registration goes through definitions in order and stops at the first one that it refuses: one that
denotes a fault, or a function for which no step is left. What was registered before stays. A name
then means the function of the last definition with that name, and what it meant before if there is
none; definitions without children play no part, and nothing but the bindings of the one scope
changes.

Whoever registers several programs, one after another, gets what the registration of all their
definitions in one program would have given.

## Main definitions

* `Node.functions`: the functions of definitions, with their names.
* `Node.refusal?`: why registration refuses a definition.
* `Evaluator.bindAll`: an evaluator after several functions have been bound.
* `Evaluator.Registers`: what registration leaves.

## Main results

* `Evaluator.register_append`: definitions are registered one list after another.
* `Evaluator.exists_bound?_bindAll`: the last function with a name is what it means.
* `Evaluator.registers_definitions`: what registration leaves, and for several programs.
-/

namespace OutlineLisp

namespace Node

/-- The function that a definition denotes, if it denotes one, with its name. -/
def function? (d : Node) : Option (String × Lambda) :=
  match Lambda.ofDefinition d with
  | .ok (some l) => some (d.boundName, l)
  | _ => none

/-- The functions that definitions denote, with their names. -/
def functions (ds : List Node) : List (String × Lambda) := ds.filterMap function?

/-- Why registration refuses a definition after some steps, if it does: the definition denotes a
fault, or a function for which no step is left. -/
def refusal? (limits : Limits) (steps : ℕ) (d : Node) : Option Fault :=
  match Lambda.ofDefinition d with
  | .error fault => some fault
  | .ok none => none
  | .ok (some _) => if steps < limits.steps then none else some (.exhausted (.steps limits.steps))

variable {d : Node} {ds : List Node} {l : Lambda}

theorem functions_cons (d : Node) (ds : List Node) :
    functions (d :: ds) = functions [d] ++ functions ds := by
  rw [functions, functions, functions, ← List.filterMap_append]
  rfl

theorem functions_append (ds ds' : List Node) :
    functions (ds ++ ds') = functions ds ++ functions ds' := List.filterMap_append

theorem functions_of_some (h : Lambda.ofDefinition d = .ok (some l)) :
    functions [d] = [(d.boundName, l)] := by
  simp [functions, function?, h]

theorem functions_of_none (h : Lambda.ofDefinition d = .ok none) : functions [d] = [] := by
  simp [functions, function?, h]

theorem functions_of_error {fault : Fault} (h : Lambda.ofDefinition d = .error fault) :
    functions [d] = [] := by
  simp [functions, function?, h]

theorem denotable_of_refusal?_eq_none {limits : Limits} {steps : ℕ}
    (h : d.refusal? limits steps = none) : d.Denotable := by
  rw [refusal?] at h
  split at h
  · cases h
  · next hnone => exact ⟨none, hnone⟩
  · next l hl => exact ⟨some l, hl⟩

/-- A definition with children that is not refused denotes a function. -/
theorem exists_of_refusal?_eq_none {limits : Limits} {steps : ℕ}
    (h : d.refusal? limits steps = none) (hchildren : d.children ≠ []) :
    ∃ l, Lambda.ofDefinition d = .ok (some l) := by
  obtain ⟨o, ho⟩ := denotable_of_refusal?_eq_none h
  cases o with
  | none => exact absurd (Lambda.ofDefinition_eq_none_iff.1 ho) hchildren
  | some l => exact ⟨l, ho⟩

end Node

open Node (functions)

namespace Evaluator

variable {limits : Limits} {scope : ScopeId} {e e' : Evaluator}

/-! ### Several lists of definitions -/

/-- **Definitions are registered one list after another,** unless one of them is refused. -/
theorem register_append (limits : Limits) (scope : ScopeId) (ds ds' : List Node) (e : Evaluator) :
    register limits scope (ds ++ ds') e
      = match register limits scope ds e with
        | (.ok _, e) => register limits scope ds' e
        | (.error fault, e) => (.error fault, e) := by
  induction ds generalizing e with
  | nil => rfl
  | cons d ds ih =>
    rw [List.cons_append, register_cons, register_cons]
    cases Lambda.ofDefinition d with
    | error fault => rfl
    | ok o =>
      cases o with
      | none => exact ih e
      | some l =>
        dsimp only
        split
        · exact ih _
        · rfl

/-- Definitions without children play no part. -/
theorem register_filter_children (limits : Limits) (scope : ScopeId) (ds : List Node)
    (e : Evaluator) :
    register limits scope (ds.filter fun d => !d.children.isEmpty) e
      = register limits scope ds e := by
  induction ds generalizing e with
  | nil => rfl
  | cons d ds ih =>
    by_cases hchildren : d.children = []
    · rw [List.filter_cons_of_neg (by simp [hchildren]), ih,
        register_of_none (Lambda.ofDefinition_eq_none_iff.2 hchildren)]
    · rw [List.filter_cons_of_pos (by simpa using hchildren), register_cons, register_cons]
      simp only [ih]

/-! ### Binding functions -/

/-- An evaluator after several functions have become closures under their names. -/
def bindAll (e : Evaluator) (scope : ScopeId) (fs : List (String × Lambda)) : Evaluator :=
  fs.foldl (fun e f => e.bindLambda scope f.1 f.2) e

theorem bindAll_append (e : Evaluator) (scope : ScopeId) (fs gs : List (String × Lambda)) :
    e.bindAll scope (fs ++ gs) = (e.bindAll scope fs).bindAll scope gs := List.foldl_append

/-- What every function that is bound keeps is kept by all of them. -/
theorem bindAll_keeps {P : Evaluator → Prop}
    (hbind : ∀ e name l, P e → P (e.bindLambda scope name l)) (fs : List (String × Lambda))
    (he : P e) : P (e.bindAll scope fs) := by
  induction fs generalizing e with
  | nil => exact he
  | cons f fs ih => exact ih (hbind e f.1 f.2 he)

theorem steps_bindAll (e : Evaluator) (scope : ScopeId) (fs : List (String × Lambda)) :
    (e.bindAll scope fs).world.steps = e.world.steps + fs.length := by
  induction fs generalizing e with
  | nil => rfl
  | cons f fs ih =>
    have hsteps : (e.bindLambda scope f.1 f.2).world.steps = e.world.steps + 1 := rfl
    show ((e.bindLambda scope f.1 f.2).bindAll scope fs).world.steps = _
    rw [ih, hsteps, List.length_cons, Nat.add_assoc, Nat.add_comm 1]

theorem scope_lt_bindAll (hscope : scope < e.world.store.size) (fs : List (String × Lambda)) :
    scope < (e.bindAll scope fs).world.store.size :=
  bindAll_keeps (P := fun e => scope < e.world.store.size)
    (fun e name l h => by rwa [store_bindLambda, Store.size_define]) fs hscope

theorem bound?_bindAll_concat (hscope : scope < e.world.store.size) (fs : List (String × Lambda))
    (f : String × Lambda) (x : String) :
    (e.bindAll scope (fs ++ [f])).world.store.bound? scope x
      = if x = f.1 then
          some (.closure ⟨(e.bindAll scope fs).world.fresh, f.2.params, f.2.body, scope⟩)
        else (e.bindAll scope fs).world.store.bound? scope x := by
  have hconcat : e.bindAll scope (fs ++ [f]) = (e.bindAll scope fs).bindLambda scope f.1 f.2 :=
    bindAll_append e scope fs [f]
  rw [hconcat, store_bindLambda, Store.bound?_define (scope_lt_bindAll hscope fs)]
  simp only [true_and]

/-- Other names than those of the functions mean what they meant before. -/
theorem bound?_bindAll_of_none (hscope : scope < e.world.store.size)
    {fs : List (String × Lambda)} {x : String} (h : fs.reverse.lookup x = none) :
    (e.bindAll scope fs).world.store.bound? scope x = e.world.store.bound? scope x := by
  induction fs using List.reverseRecOn with
  | nil => rfl
  | append_singleton fs f ih =>
    rw [List.reverse_append, List.reverse_singleton, List.singleton_append, List.lookup_cons] at h
    rw [bound?_bindAll_concat hscope]
    by_cases hx : x = f.1
    · rw [beq_iff_eq.2 hx] at h
      cases h
    · rw [beq_eq_false_iff_ne.2 hx] at h
      rw [if_neg hx, ih h]

/-- **The last function with a name is what the name means,** as a closure over the scope. -/
theorem exists_bound?_bindAll (hscope : scope < e.world.store.size)
    {fs : List (String × Lambda)} {x : String} {l : Lambda} (h : fs.reverse.lookup x = some l) :
    ∃ identity, (e.bindAll scope fs).world.store.bound? scope x
      = some (.closure ⟨identity, l.params, l.body, scope⟩) := by
  induction fs using List.reverseRecOn with
  | nil => cases h
  | append_singleton fs f ih =>
    rw [List.reverse_append, List.reverse_singleton, List.singleton_append, List.lookup_cons] at h
    rw [bound?_bindAll_concat hscope]
    by_cases hx : x = f.1
    · rw [beq_iff_eq.2 hx] at h
      obtain rfl := Option.some.inj h
      exact ⟨_, if_pos hx⟩
    · rw [beq_eq_false_iff_ne.2 hx] at h
      rw [if_neg hx]
      exact ih h

/-! ### The stopping point -/

/-- Whether registration refuses none of some definitions, having taken some steps before. -/
def Accepted (limits : Limits) (steps : ℕ) (ds : List Node) : Prop :=
  ∀ before d after, ds = before ++ d :: after →
    d.refusal? limits (steps + (functions before).length) = none

/-- How registration ends after some steps, according to what is left of the definitions: with
success, or with the fault for which it refuses the next one. -/
inductive EndsWith (limits : Limits) (steps : ℕ) : List Node → Except Fault Unit → Prop where
  | done : EndsWith limits steps [] (.ok ())
  | refused {d : Node} {ds : List Node} {fault : Fault} (h : d.refusal? limits steps = some fault) :
    EndsWith limits steps (d :: ds) (.error fault)

theorem accepted_nil (limits : Limits) (steps : ℕ) : Accepted limits steps [] := by
  intro before d after h
  cases before <;> cases h

theorem Accepted.cons {steps : ℕ} {d : Node} {ds : List Node}
    (h : Accepted limits (steps + (functions [d]).length) ds)
    (hd : d.refusal? limits steps = none) : Accepted limits steps (d :: ds) := by
  intro before d' after hsplit
  cases before with
  | nil =>
    obtain ⟨rfl, -⟩ := List.cons.inj hsplit
    exact hd
  | cons b before =>
    obtain ⟨rfl, hds⟩ := List.cons.inj hsplit
    rw [Node.functions_cons, List.length_append, ← Nat.add_assoc]
    exact h before d' after hds

theorem Accepted.denotable {steps : ℕ} {ds : List Node} (h : Accepted limits steps ds) {d : Node}
    (hd : d ∈ ds) : d.Denotable := by
  obtain ⟨before, after, rfl⟩ := List.append_of_mem hd
  exact Node.denotable_of_refusal?_eq_none (h before d after rfl)

/-- Registration binds the functions of the definitions before the stopping point. A function for
which no step is left is tried all the same, which counts as a step. -/
theorem exists_register_eq (limits : Limits) (scope : ScopeId) (ds : List Node) (e : Evaluator) :
    ∃ done rest, ds = done ++ rest ∧ Accepted limits e.world.steps done ∧
      EndsWith limits (e.world.steps + (functions done).length) rest
        (register limits scope ds e).1 ∧
      (register limits scope ds e).2
        = (e.bindAll scope (functions done)).spend (functions rest.head?.toList).length := by
  induction ds generalizing e with
  | nil => exact ⟨[], [], rfl, accepted_nil limits _, .done, rfl⟩
  | cons d ds ih =>
    cases hd : Lambda.ofDefinition d with
    | error fault =>
      refine ⟨[], d :: ds, rfl, accepted_nil limits _, ?_, ?_⟩
      · rw [register_cons, hd]
        exact .refused (by simp [Node.refusal?, hd])
      · rw [register_cons, hd, List.head?_cons, Option.toList_some, Node.functions_of_error hd]
        rfl
    | ok o =>
      cases o with
      | none =>
        obtain ⟨done, rest, rfl, haccepted, hends, heq⟩ := ih e
        have hfunctions : functions (d :: done) = functions done := by
          rw [Node.functions_cons, Node.functions_of_none hd, List.nil_append]
        refine ⟨d :: done, rest, rfl, .cons ?_ (by simp [Node.refusal?, hd]), ?_, ?_⟩
        · rwa [Node.functions_of_none hd]
        · rwa [register_of_none hd, hfunctions]
        · rwa [register_of_none hd, hfunctions]
      | some l =>
        by_cases hlt : e.world.steps < limits.steps
        · obtain ⟨done, rest, rfl, haccepted, hends, heq⟩ := ih (e.bindLambda scope d.boundName l)
          have hfunctions : functions (d :: done) = (d.boundName, l) :: functions done := by
            rw [Node.functions_cons, Node.functions_of_some hd, List.singleton_append]
          refine ⟨d :: done, rest, rfl, .cons ?_ (by simp [Node.refusal?, hd, hlt]), ?_, ?_⟩
          · rwa [Node.functions_of_some hd]
          · rw [register_of_lt hd hlt, hfunctions, List.length_cons, Nat.add_comm _ 1,
              ← Nat.add_assoc]
            exact hends
          · rw [register_of_lt hd hlt, hfunctions]
            exact heq
        · refine ⟨[], d :: ds, rfl, accepted_nil limits _, ?_, ?_⟩
          · rw [register_of_not_lt hd hlt]
            exact .refused (by simp [Node.refusal?, hd, functions, hlt])
          · rw [register_of_not_lt hd hlt, List.head?_cons, Option.toList_some,
              Node.functions_of_some hd]
            rfl

/-- Definitions that denote functions, or nothing, are all registered if enough steps are left. -/
theorem register_eq_bindAll {ds : List Node} (hds : ∀ d ∈ ds, d.Denotable)
    (hsteps : e.world.steps + (functions ds).length ≤ limits.steps) :
    register limits scope ds e = (.ok (), e.bindAll scope (functions ds)) := by
  induction ds generalizing e with
  | nil => rfl
  | cons d ds ih =>
    obtain ⟨⟨o, ho⟩, hds⟩ := List.forall_mem_cons.1 hds
    rw [Node.functions_cons] at hsteps ⊢
    cases o with
    | none =>
      rw [Node.functions_of_none ho, List.nil_append] at hsteps ⊢
      rw [register_of_none ho, ih hds hsteps]
    | some l =>
      rw [Node.functions_of_some ho, List.singleton_append] at hsteps ⊢
      rw [List.length_cons] at hsteps
      have hbind : (e.bindLambda scope d.boundName l).world.steps = e.world.steps + 1 := rfl
      rw [register_of_lt ho (by omega), ih hds (by omega)]
      rfl

/-- The first definition that denotes a fault ends the registration, if enough steps are left. -/
theorem register_eq_error {done rest : List Node} {d : Node} {fault : Fault}
    (hdone : ∀ d ∈ done, d.Denotable) (hd : Lambda.ofDefinition d = .error fault)
    (hsteps : e.world.steps + (functions done).length ≤ limits.steps) :
    register limits scope (done ++ d :: rest) e
      = (.error fault, e.bindAll scope (functions done)) := by
  rw [register_append, register_eq_bindAll hdone hsteps]
  simp only [register_cons, hd]

/-- Registration succeeds only where all definitions denote functions, or nothing. -/
theorem of_register_eq_ok {ds : List Node} (h : register limits scope ds e = (.ok (), e')) :
    (∀ d ∈ ds, d.Denotable) ∧ e' = e.bindAll scope (functions ds) := by
  obtain ⟨done, rest, rfl, haccepted, hends, heq⟩ := exists_register_eq limits scope ds e
  rw [h] at hends heq
  cases hends with
  | done =>
    rw [List.append_nil]
    exact ⟨fun d hd => haccepted.denotable hd, heq⟩

/-- A registration that fails and leaves a step has been ended by a definition that denotes a
fault. -/
theorem exists_of_register_eq_error {ds : List Node} {fault : Fault}
    (h : register limits scope ds e = (.error fault, e'))
    (hsteps : e'.world.steps < limits.steps) :
    ∃ done d rest, ds = done ++ d :: rest ∧ (∀ d ∈ done, d.Denotable) ∧
      Lambda.ofDefinition d = .error fault ∧
      e.world.steps + (functions done).length < limits.steps := by
  obtain ⟨done, rest, rfl, haccepted, hends, heq⟩ := exists_register_eq limits scope ds e
  rw [h] at hends heq
  dsimp only at heq
  cases hends with
  | @refused d rest _ hrefusal =>
    have hused : e'.world.steps
        = e.world.steps + (functions done).length + (functions [d]).length := by
      rw [heq, ← steps_bindAll]
      rfl
    refine ⟨done, d, rest, rfl, fun d hd => haccepted.denotable hd, ?_, by omega⟩
    rw [Node.refusal?] at hrefusal
    split at hrefusal
    · next fault' hd =>
      obtain rfl := Option.some.inj hrefusal
      exact hd
    · cases hrefusal
    · -- A function is refused only if no step is left.
      rw [if_pos (by omega)] at hrefusal
      cases hrefusal

/-! ### What is left -/

/-- What registration leaves of an evaluator, where `done` are the definitions before the stopping
point and `rest` the others. -/
structure Registers (limits : Limits) (scope : ScopeId) (e : Evaluator) (done rest : List Node)
    (r : Except Fault Unit × Evaluator) : Prop where
  /-- No definition before the stopping point is refused; with children it denotes a function. -/
  accepted : Accepted limits e.world.steps done
  denoted : ∀ d ∈ done, d.children ≠ [] → ∃ l, (d.boundName, l) ∈ functions done
  /-- The definition at the stopping point is refused, and if there is none, there is success. -/
  outcome : EndsWith limits (e.world.steps + (functions done).length) rest r.1
  /-- A name of functions before the stopping point means a closure of the last one. -/
  bound : ∀ x l, (functions done).reverse.lookup x = some l →
    ∃ identity, r.2.world.store.bound? scope x
      = some (.closure ⟨identity, l.params, l.body, scope⟩)
  /-- Other names mean what they meant before. -/
  unbound : ∀ x, (functions done).reverse.lookup x = none →
    r.2.world.store.bound? scope x = e.world.store.bound? scope x
  /-- The other scopes stay as they are, and the scope stays where it is. -/
  others : ∀ id, id ≠ scope → r.2.world.store.scope? id = e.world.store.scope? id
  parent : r.2.world.store.parent? scope = e.world.store.parent? scope
  size : r.2.world.store.size = e.world.store.size
  /-- Nothing is said, and no call is in progress that was not before. -/
  lines : r.2.world.lines = e.world.lines
  depth : r.2.depth = e.depth
  /-- There is a step for every function, also for one that is refused. -/
  steps : r.2.world.steps = e.world.steps + (functions (done ++ rest.head?.toList)).length

/-- What registration leaves, whatever the definitions are. -/
theorem exists_registers (limits : Limits) (hscope : scope < e.world.store.size)
    (ds : List Node) :
    ∃ done rest, ds = done ++ rest ∧
      Registers limits scope e done rest (register limits scope ds e) := by
  obtain ⟨done, rest, hsplit, haccepted, hends, heq⟩ := exists_register_eq limits scope ds e
  have hstore : (register limits scope ds e).2.world.store
      = (e.bindAll scope (functions done)).world.store := by rw [heq]; rfl
  have hkeeps : ∀ {P : Evaluator → Prop}, (∀ e name l, P e → P (e.bindLambda scope name l)) →
      P e → P (e.bindAll scope (functions done)) := fun hbind => bindAll_keeps hbind _
  refine ⟨done, rest, hsplit, ?_⟩
  exact
    { accepted := haccepted
      denoted := by
        intro d hd hchildren
        obtain ⟨before, after, rfl⟩ := List.append_of_mem hd
        obtain ⟨l, hl⟩ := Node.exists_of_refusal?_eq_none (haccepted _ _ _ rfl) hchildren
        refine ⟨l, List.mem_filterMap.2 ⟨d, hd, ?_⟩⟩
        rw [Node.function?, hl]
      outcome := hends
      bound := by
        intro x l hl
        rw [hstore]
        exact exists_bound?_bindAll hscope hl
      unbound := by
        intro x hx
        rw [hstore, bound?_bindAll_of_none hscope hx]
      others := by
        intro id hid
        rw [hstore]
        refine hkeeps (P := fun e' => e'.world.store.scope? id = e.world.store.scope? id)
          (fun e' name l h => ?_) rfl
        rw [store_bindLambda, Store.scope?_define, if_neg hid, h]
      parent := by
        rw [hstore]
        refine hkeeps (P := fun e' => e'.world.store.parent? scope = e.world.store.parent? scope)
          (fun e' name l h => ?_) rfl
        rw [store_bindLambda, Store.parent?_define, h]
      size := size_register limits scope ds e
      lines := lines_register limits scope ds e
      depth := depth_register limits scope ds e
      steps := by
        rw [heq, Node.functions_append, List.length_append, ← Nat.add_assoc, ← steps_bindAll]
        rfl }

/-- **What registration leaves.** It goes through the definitions of a program in order and stops at
the first that it refuses; the functions before are bound, of several with one name the last, and
nothing else changes. Definitions without children may be left out. Registering two programs, one
after the other, is registering the children of both together. -/
theorem registers_definitions :
    (∀ (limits : Limits) (scope : ScopeId) (e : Evaluator) (program : Node),
        scope < e.world.store.size → ∃ done rest, program.definitions = done ++ rest ∧
          Registers limits scope e done rest (e.register limits scope program.definitions)) ∧
      (∀ (limits : Limits) (scope : ScopeId) (e : Evaluator) (program : Node),
        e.register limits scope (program.definitions.filter fun d => !d.children.isEmpty)
          = e.register limits scope program.definitions) ∧
      ∀ (limits : Limits) (scope : ScopeId) (e e' : Evaluator) (p q : Node),
        e.register limits scope p.definitions = (.ok (), e') →
          e'.register limits scope q.definitions
            = e.register limits scope
                { p with children := p.children ++ q.children }.definitions := by
  refine ⟨fun limits scope e program hscope => exists_registers limits hscope _,
    fun limits scope e program => register_filter_children limits scope _ e,
    fun limits scope e e' p q h => ?_⟩
  have hdefinitions : { p with children := p.children ++ q.children }.definitions
      = p.definitions ++ q.definitions := List.filter_append _ _
  rw [hdefinitions, register_append, h]

/-! ### Definitions of one name -/

/-- A program that binds the name of a primitive twice, with a definition without children between
the two, and then has a definition without a name and one more. -/
def redefining : Node :=
  { kind := .program
    children := [Run.plain "car" { kind := .literal, value := some (.text "first") },
      { kind := .definition, value := some (.text "car") },
      Run.plain "car" { kind := .literal, value := some (.text "second") },
      { kind := .definition, children := [{ kind := .literal, value := some (.text "nameless") }] },
      Run.plain "cdr" { kind := .literal, value := some (.text "last") }] }

/-- Three steps are enough for all but the last definition, at which registration stops. With more
steps the program may also be registered after another one. -/
theorem registers_redefining :
    globalScope < global.world.store.size ∧
      (∃ done rest, redefining.definitions = done ++ rest ∧
        Registers ⟨3, 9⟩ globalScope global done rest
          (global.register ⟨3, 9⟩ globalScope redefining.definitions)) ∧
      (global.register ⟨3, 9⟩ globalScope redefining.definitions).1
        = .error (.exhausted (.steps 3)) ∧
      global.register ⟨9, 9⟩ globalScope Run.handing.definitions
        = (.ok (), (Run.registration ⟨9, 9⟩ Run.handing).2) ∧
      (Run.registration ⟨9, 9⟩ Run.handing).2.register ⟨9, 9⟩ globalScope redefining.definitions
        = global.register ⟨9, 9⟩ globalScope
            { Run.handing with
              children := Run.handing.children ++ redefining.children }.definitions := by
  have hscope : globalScope < global.world.store.size := Nat.one_pos
  have hstops : (global.register ⟨3, 9⟩ globalScope redefining.definitions).1
      = .error (.exhausted (.steps 3)) := by cbv
  have hhanding : global.register ⟨9, 9⟩ globalScope Run.handing.definitions
      = (.ok (), (Run.registration ⟨9, 9⟩ Run.handing).2) := by
    rw [Run.registration_handing]
    exact Run.registration_handing
  obtain ⟨hregisters, -, hboth⟩ := registers_definitions
  exact ⟨hscope, hregisters ⟨3, 9⟩ globalScope global redefining hscope, hstops, hhanding,
    hboth ⟨9, 9⟩ globalScope global _ Run.handing redefining hhanding⟩

end Evaluator

end OutlineLisp
