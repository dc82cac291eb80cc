import Mathlib.Data.List.Pairwise
import Mathlib.Logic.Equiv.Basic
import OutlineLisp.Execution.Run
import OutlineLisp.Proofs.Execution.Resolution
import OutlineLisp.Proofs.Machine.Identity
import OutlineLisp.Proofs.Machine.Lines

/-!
# The order of definitions

Registration gives the closures of a program their identities in the order of the document, and
binds them in that order, too. If no two of them have one name, the program sees neither: in another
order the closures have other identities, and every name means the same closure up to its identity.
Registration takes as many steps in any order, so a limit is passed in all orders or in none.

Two neighbours are exchanged at a time. Their closures exchange the two identities that come next,
which nothing has yet been given.

## Main definitions

* `Node.Denotable`: definitions that denote functions, or nothing.
* `Node.Unambiguous`: programs whose definitions denote functions under different names.
* `Evaluator.RegisterAlike`: lists of definitions that leave the same, up to identities.
* `Run.play`: a run of a program with the world that it leaves.
* `Run.SameUpToIdentities`: what runs have in common that differ only in identities.

## Main results

* `Evaluator.registerAlike_of_perm`: definitions are registered alike in any order.
* `Run.sameUpToIdentities_of_perm`: programs run alike in any order of their definitions.
-/

namespace OutlineLisp

namespace Node

/-- Whether a definition denotes a function, or nothing, but no fault. -/
def Denotable (definition : Node) : Prop := ∃ o, Lambda.ofDefinition definition = .ok o

/-- The name that a definition binds. -/
def boundName (definition : Node) : String := definition.text?.getD ""

/-- Whether two definitions bind different names, if both have children. -/
def BindApart (d d' : Node) : Prop :=
  d.children ≠ [] → d'.children ≠ [] → d.boundName ≠ d'.boundName

theorem BindApart.symm {d d' : Node} (h : d.BindApart d') : d'.BindApart d :=
  fun hd' hd => (h hd hd').symm

/-- Whether every definition with children denotes a function, and no two of them bind one name. -/
structure Unambiguous (program : Node) : Prop where
  denotes : ∀ d ∈ program.definitions, d.children ≠ [] → ∃ l, Lambda.ofDefinition d = .ok (some l)
  apart : program.definitions.Pairwise BindApart

theorem Unambiguous.denotable {program : Node} (h : program.Unambiguous) {d : Node}
    (hd : d ∈ program.definitions) : d.Denotable := by
  by_cases hchildren : d.children = []
  · exact ⟨none, Lambda.ofDefinition_eq_none_iff.2 hchildren⟩
  · obtain ⟨l, hl⟩ := h.denotes d hd hchildren
    exact ⟨some l, hl⟩

end Node

theorem Lambda.children_ne_nil {d : Node} {l : Lambda} (h : Lambda.ofDefinition d = .ok (some l)) :
    d.children ≠ [] := by
  intro hchildren
  rw [Lambda.ofDefinition_eq_none_iff.2 hchildren] at h
  cases h

namespace Evaluator

open Machine

variable {limits : Limits} {scope : ScopeId} {e e' e'' : Evaluator} {π : ℕ → ℕ}

/-! ### One definition -/

variable {d : Node} {ds : List Node} {l : Lambda}

theorem register_of_none (hd : Lambda.ofDefinition d = .ok none) :
    register limits scope (d :: ds) e = register limits scope ds e := by
  rw [register_cons, hd]

theorem register_of_lt (hd : Lambda.ofDefinition d = .ok (some l))
    (h : e.world.steps < limits.steps) :
    register limits scope (d :: ds) e
      = register limits scope ds (e.bindLambda scope d.boundName l) := by
  rw [register_cons, hd]
  exact if_pos h

theorem register_of_not_lt (hd : Lambda.ofDefinition d = .ok (some l))
    (h : ¬e.world.steps < limits.steps) :
    register limits scope (d :: ds) e
      = (.error (.exhausted (.steps limits.steps)), { e with world := e.world.tick }) := by
  rw [register_cons, hd]
  exact if_neg h

theorem renumbered_bindLambda (h : e.world.Renumbered π e'.world)
    (hscope : scope < e.world.store.size) (name : String) (l : Lambda) :
    (e.bindLambda scope name l).world.Renumbered π (e'.bindLambda scope name l).world := by
  have hstore := h.store.define hscope name (.closure ⟨e.world.fresh, l.params, l.body, scope⟩)
  rw [Value.renumber, h.renumber_fresh] at hstore
  exact { h.tick.draw with store := hstore }

/-- In another order two definitions exchange the identities that come next. -/
theorem renumbered_bindLambda_swap (h : e.world.Renumbered π e'.world)
    (hbelow : e.world.store.Below e.world.fresh) (hscope : scope < e.world.store.size)
    {name name' : String} (hne : name ≠ name') (l l' : Lambda) :
    ((e.bindLambda scope name l).bindLambda scope name' l').world.Renumbered
      (π ∘ Equiv.swap e.world.fresh (e.world.fresh + 1))
      ((e'.bindLambda scope name' l').bindLambda scope name l).world := by
  have hnext : π (e.world.fresh + 1) = e'.world.fresh + 1 := by
    rw [h.fixes _ (Nat.le_succ _), h.fresh]
  -- No value in the store has one of the two identities.
  have hold : e.world.store.Renumbered (Equiv.swap e.world.fresh (e.world.fresh + 1))
      e.world.store := by
    refine hbelow.renumbered fun i hi => Equiv.swap_apply_of_ne_of_ne ?_ ?_ <;> omega
  have hstore := (hold.trans h.store).define_swap hscope hne
    (.closure ⟨e.world.fresh, l.params, l.body, scope⟩)
    (.closure ⟨e.world.fresh + 1, l'.params, l'.body, scope⟩)
  simp only [Value.renumber, Function.comp_apply, Equiv.swap_apply_left, Equiv.swap_apply_right,
    hnext, h.renumber_fresh] at hstore
  exact {
    injective := h.injective.comp (Equiv.injective _)
    fixes := by
      intro n hn
      have hn' : e.world.fresh + 1 + 1 ≤ n := hn
      rw [Function.comp_apply, Equiv.swap_apply_of_ne_of_ne (by omega) (by omega)]
      exact h.fixes n (by omega)
    store := hstore
    fresh := congrArg (· + 1 + 1) h.fresh
    steps := congrArg (· + 1 + 1) h.steps
    lines := h.lines }

theorem below_bindLambda (hbelow : e.world.store.Below e.world.fresh)
    (hscope : scope < e.world.store.size) (name : String) (l : Lambda) :
    (e.bindLambda scope name l).world.store.Below (e.bindLambda scope name l).world.fresh := by
  refine hbelow.define hscope name fun σ hσ => ?_
  rw [Value.renumber, hσ _ (Nat.lt_succ_self _)]

/-! ### Registration -/

/-- Whether two evaluators differ only in identities, and definitions can be registered in a scope:
the scope exists, and all identities in the store have been given away. -/
structure Alike (scope : ScopeId) (e e' : Evaluator) : Prop where
  scope_lt : scope < e.world.store.size
  below : e.world.store.Below e.world.fresh
  renumbered : ∃ π, e.world.Renumbered π e'.world

namespace Alike

theorem trans (h : Alike scope e e') (h' : Alike scope e' e'') : Alike scope e e'' := by
  obtain ⟨π, hπ⟩ := h.renumbered
  obtain ⟨σ, hσ⟩ := h'.renumbered
  exact ⟨h.scope_lt, h.below, σ ∘ π, hπ.trans hσ⟩

theorem self (h : Alike scope e e') : Alike scope e e :=
  ⟨h.scope_lt, h.below, id, .refl e.world⟩

theorem steps (h : Alike scope e e') : e'.world.steps = e.world.steps := by
  obtain ⟨π, hπ⟩ := h.renumbered
  exact hπ.steps

theorem bindLambda (h : Alike scope e e') (name : String) (l : Lambda) :
    Alike scope (e.bindLambda scope name l) (e'.bindLambda scope name l) where
  scope_lt := by
    rw [store_bindLambda, Store.size_define]
    exact h.scope_lt
  below := below_bindLambda h.below h.scope_lt name l
  renumbered := by
    obtain ⟨π, hπ⟩ := h.renumbered
    exact ⟨π, renumbered_bindLambda hπ h.scope_lt name l⟩

theorem bindLambda_swap (h : Alike scope e e') {name name' : String} (hne : name ≠ name')
    (l l' : Lambda) :
    Alike scope ((e.bindLambda scope name l).bindLambda scope name' l')
      ((e'.bindLambda scope name' l').bindLambda scope name l) where
  scope_lt := ((h.self.bindLambda name l).bindLambda name' l').scope_lt
  below := ((h.self.bindLambda name l).bindLambda name' l').below
  renumbered := by
    obtain ⟨π, hπ⟩ := h.renumbered
    exact ⟨_, renumbered_bindLambda_swap hπ h.below h.scope_lt hne l l'⟩

end Alike

/-- Whether two lists of definitions are registered alike. From evaluators that differ only in
identities they lead to such evaluators, or fail with the same fault. -/
def RegisterAlike (limits : Limits) (scope : ScopeId) (ds ds' : List Node) : Prop :=
  ∀ e e', Alike scope e e' →
    (register limits scope ds' e').1 = (register limits scope ds e).1 ∧
      ((register limits scope ds e).1 = .ok () →
        Alike scope (register limits scope ds e).2 (register limits scope ds' e').2)

namespace RegisterAlike

variable {ds ds' ds'' : List Node} {d d' : Node}

theorem trans (h : RegisterAlike limits scope ds ds') (h' : RegisterAlike limits scope ds' ds'') :
    RegisterAlike limits scope ds ds'' := by
  intro e e' he
  obtain ⟨hfst, hsnd⟩ := h e e he.self
  obtain ⟨hfst', hsnd'⟩ := h' e e' he
  exact ⟨hfst'.trans hfst, fun hok => (hsnd hok).trans (hsnd' (hfst.trans hok))⟩

/-- A definition may be put in front. -/
theorem cons (h : RegisterAlike limits scope ds ds') (hd : d.Denotable) :
    RegisterAlike limits scope (d :: ds) (d :: ds') := by
  intro e e' he
  obtain ⟨o, ho⟩ := hd
  cases o with
  | none =>
    rw [register_of_none ho, register_of_none ho]
    exact h e e' he
  | some l =>
    by_cases hlt : e.world.steps < limits.steps
    · have hlt' : e'.world.steps < limits.steps := he.steps ▸ hlt
      rw [register_of_lt ho hlt, register_of_lt ho hlt']
      exact h _ _ (he.bindLambda d.boundName l)
    · have hlt' : ¬e'.world.steps < limits.steps := he.steps ▸ hlt
      rw [register_of_not_lt ho hlt, register_of_not_lt ho hlt']
      exact ⟨rfl, nofun⟩

theorem self (hds : ∀ d ∈ ds, d.Denotable) : RegisterAlike limits scope ds ds := by
  induction ds with
  | nil => exact fun e e' he => ⟨rfl, fun _ => he⟩
  | cons d ds ih =>
    obtain ⟨hd, hds⟩ := List.forall_mem_cons.1 hds
    exact (ih hds).cons hd

/-- A definition without children may be left out, or put in front. -/
theorem of_leaf (hd : Lambda.ofDefinition d = .ok none) (hds : ∀ d ∈ ds, d.Denotable) :
    RegisterAlike limits scope (d :: ds) ds ∧ RegisterAlike limits scope ds (d :: ds) := by
  constructor
  · intro e e' he
    rw [register_of_none hd]
    exact self hds e e' he
  · intro e e' he
    rw [register_of_none hd]
    exact self hds e e' he

/-- Two definitions in front may be exchanged if they bind different names. -/
theorem swap (hd : d.Denotable) (hd' : d'.Denotable) (hds : ∀ d ∈ ds, d.Denotable)
    (hapart : d.BindApart d') : RegisterAlike limits scope (d :: d' :: ds) (d' :: d :: ds) := by
  obtain ⟨o, ho⟩ := hd
  obtain ⟨o', ho'⟩ := hd'
  have hcons : ∀ b ∈ d :: ds, b.Denotable := List.forall_mem_cons.2 ⟨⟨o, ho⟩, hds⟩
  have hcons' : ∀ b ∈ d' :: ds, b.Denotable := List.forall_mem_cons.2 ⟨⟨o', ho'⟩, hds⟩
  cases o with
  | none => exact (of_leaf ho hcons').1.trans ((of_leaf ho hds).2.cons ⟨o', ho'⟩)
  | some l =>
    cases o' with
    | none => exact ((of_leaf ho' hds).1.cons ⟨some l, ho⟩).trans (of_leaf ho' hcons).2
    | some l' =>
      -- The limit is passed at the first definition, at the second one, or at neither.
      intro e e' he
      have hne : d.boundName ≠ d'.boundName :=
        hapart (Lambda.children_ne_nil ho) (Lambda.children_ne_nil ho')
      by_cases hfirst : e.world.steps < limits.steps
      · have hfirst' : e'.world.steps < limits.steps := he.steps ▸ hfirst
        rw [register_of_lt ho hfirst, register_of_lt ho' hfirst']
        by_cases hsecond : e.world.steps + 1 < limits.steps
        · have hsecond' : e'.world.steps + 1 < limits.steps := he.steps ▸ hsecond
          rw [register_of_lt ho' hsecond, register_of_lt ho hsecond']
          exact self hds _ _ (he.bindLambda_swap hne l l')
        · have hsecond' : ¬e'.world.steps + 1 < limits.steps := he.steps ▸ hsecond
          rw [register_of_not_lt ho' hsecond, register_of_not_lt ho hsecond']
          exact ⟨rfl, nofun⟩
      · have hfirst' : ¬e'.world.steps < limits.steps := he.steps ▸ hfirst
        rw [register_of_not_lt ho hfirst, register_of_not_lt ho' hfirst']
        exact ⟨rfl, nofun⟩

end RegisterAlike

/-- **Definitions are registered alike in any order** if they denote functions, or nothing, and bind
different names. -/
theorem registerAlike_of_perm {ds ds' : List Node} (h : ds.Perm ds')
    (hds : ∀ d ∈ ds, d.Denotable) (hapart : ds.Pairwise Node.BindApart) :
    RegisterAlike limits scope ds ds' := by
  induction h with
  | nil => exact .self hds
  | cons d _ ih =>
    obtain ⟨hd, hds⟩ := List.forall_mem_cons.1 hds
    exact (ih hds (List.pairwise_cons.1 hapart).2).cons hd
  | swap d d' ds =>
    obtain ⟨hd', hds⟩ := List.forall_mem_cons.1 hds
    obtain ⟨hd, hds⟩ := List.forall_mem_cons.1 hds
    exact .swap hd' hd hds ((List.pairwise_cons.1 hapart).1 d List.mem_cons_self)
  | trans h _ ih ih' =>
    have hds' := fun d hd => hds d (h.mem_iff.2 hd)
    exact (ih hds hapart).trans (ih' hds' (h.pairwise hapart fun h => h.symm))

/-! ### Calls from outside -/

/-- Values that differ only in identities are called alike from outside. -/
theorem renumbered_apply (limits : Limits) (h : e.world.Renumbered π e'.world)
    (hdepth : e'.depth = e.depth) (callee : Value) (args : List Value) :
    (e'.apply limits (callee.renumber π) (args.map (Value.renumber π))).1
        = (e.apply limits callee args).1.map (Value.renumber π) ∧
      (e.apply limits callee args).2.world.Renumbered π
        (e'.apply limits (callee.renumber π) (args.map (Value.renumber π))).2.world := by
  have hcall := renumbered_finish_call limits h callee args [] e.depth
  rw [apply_eq_finish, apply_eq_finish, hdepth]
  exact ⟨hcall.outcome, hcall.world⟩

/-! ### The global scope -/

theorem alike_global : Alike globalScope global global where
  scope_lt := Nat.one_pos
  below := by
    intro id x v hv
    obtain ⟨p, rfl⟩ := of_bound?_global hv
    exact fun _ _ => rfl
  renumbered := ⟨id, .refl global.world⟩

end Evaluator

namespace Ending

/-- An ending with other identities. -/
def renumber (π : ℕ → ℕ) : Ending → Ending
  | finished v => finished (v.renumber π)
  | noEntryPoint => noEntryPoint

/-- An ending by its contents: of the value that `main` has returned, identities are left out. -/
def contents : Ending → Ending := renumber fun _ => 0

theorem contents_renumber (π : ℕ → ℕ) (ending : Ending) :
    (ending.renumber π).contents = ending.contents := by
  cases ending with
  | finished v => exact congrArg finished (v.contents_renumber π)
  | noEntryPoint => rfl

end Ending

namespace Run

open Machine

variable {limits : Limits} {e e' : Evaluator} {π : ℕ → ℕ}

/-! ### Runs with the world that they leave -/

/-- The call of `main`, if it is there, and the world that it leaves. -/
def playRegistered (limits : Limits) (e : Evaluator) : Except Fault Ending × World :=
  match e.world.store.lookup? Evaluator.globalScope entryPoint with
  | none => (.ok .noEntryPoint, e.world)
  | some main => ((e.apply limits main []).1.map .finished, (e.apply limits main []).2.world)

/-- What the registration of a program leaves. -/
def registration (limits : Limits) (program : Node) : Except Fault Unit × Evaluator :=
  Evaluator.global.register limits Evaluator.globalScope program.definitions

theorem depth_registration (limits : Limits) (program : Node) :
    (registration limits program).2.depth = 0 :=
  Evaluator.depth_register limits Evaluator.globalScope program.definitions Evaluator.global

/-- A run of a program and the world that it leaves, in which the run itself has said nothing. -/
def play (limits : Limits) (program : Node) : Except Fault Ending × World :=
  match (registration limits program).1 with
  | .ok _ => playRegistered limits (registration limits program).2
  | .error fault => (.error fault, (registration limits program).2.world)

/-- What a run itself says at its end. -/
def closingLine? : Except Fault Ending → Option String
  | .ok (.finished _) => some completionLine
  | .ok .noEntryPoint => some noEntryPointLine
  | .error _ => none

/-- A run with what it says at its end. -/
def ofPlay (r : Except Fault Ending × World) : Run :=
  ⟨r.1, (r.2.say (closingLine? r.1)).lines.toList⟩

theorem ofPlay_playRegistered (limits : Limits) (e : Evaluator) :
    ofPlay (playRegistered limits e) = ofRegistered limits e := by
  rw [playRegistered, ofRegistered]
  cases e.world.store.lookup? Evaluator.globalScope entryPoint with
  | none => rfl
  | some main =>
    simp only
    rcases e.apply limits main [] with ⟨fault | v, e⟩ <;> rfl

/-- A run of a program is what it leaves, and what it says at its end. -/
theorem ofPlay_play (limits : Limits) (program : Node) :
    ofPlay (play limits program) = ofProgram limits program := by
  rw [play, ofProgram, ← registration]
  rcases registration limits program with ⟨fault | _, e⟩
  · rfl
  · exact ofPlay_playRegistered limits e

/-- Plays that end with other identities, and with the same lines, are runs with the same lines that
end with the same contents. -/
theorem ofPlay_renumber {r r' : Except Fault Ending × World}
    (houtcome : r'.1 = r.1.map (Ending.renumber π)) (hlines : r'.2.lines = r.2.lines) :
    (ofPlay r').lines = (ofPlay r).lines ∧
      (ofPlay r').outcome.map Ending.contents = (ofPlay r).outcome.map Ending.contents := by
  obtain ⟨outcome, w⟩ := r
  obtain ⟨_, w'⟩ := r'
  obtain rfl := houtcome
  have hlines : w'.lines = w.lines := hlines
  have hclosing : closingLine? (outcome.map (Ending.renumber π)) = closingLine? outcome := by
    rcases outcome with fault | v | _ <;> rfl
  constructor
  · simp only [ofPlay, hclosing, lines_say, hlines]
  · rcases outcome with fault | ending
    · rfl
    · exact congrArg Except.ok (ending.contents_renumber π)

/-! ### Runs that differ only in identities -/

/-- What the runs of two programs have in common that differ only in identities: the lines, and how
they end. Both meet the same fault, or both find no `main`, or both return values with the same
contents. Closures have the same contents if they keep scopes with one number, and then these
scopes bind the same names to values with the same contents. -/
structure SameUpToIdentities (limits : Limits) (program program' : Node) : Prop where
  lines : (ofProgram limits program').lines = (ofProgram limits program).lines
  outcome : (ofProgram limits program').outcome.map Ending.contents
    = (ofProgram limits program).outcome.map Ending.contents
  scopes : ∀ v, (ofProgram limits program).outcome = .ok (.finished v) →
    (play limits program).2.store.SameContents (play limits program').2.store

/-- Whether two plays differ only in identities. -/
structure PlaysAlike (π : ℕ → ℕ) (r r' : Except Fault Ending × World) : Prop where
  outcome : r'.1 = r.1.map (Ending.renumber π)
  world : r.2.Renumbered π r'.2

theorem playsAlike_playRegistered (h : e.world.Renumbered π e'.world)
    (hdepth : e'.depth = e.depth) :
    PlaysAlike π (playRegistered limits e) (playRegistered limits e') := by
  rw [playRegistered, playRegistered, h.store.lookup?]
  cases e.world.store.lookup? Evaluator.globalScope entryPoint with
  | none => exact ⟨rfl, h⟩
  | some main =>
    obtain ⟨houtcome, hworld⟩ := Evaluator.renumbered_apply limits h hdepth main []
    rw [List.map_nil] at houtcome
    refine ⟨?_, hworld⟩
    simp only [Option.map_some, houtcome]
    cases (e.apply limits main []).1 <;> rfl

theorem PlaysAlike.sameUpToIdentities {program program' : Node}
    (h : PlaysAlike π (play limits program) (play limits program')) :
    SameUpToIdentities limits program program' := by
  obtain ⟨hlines, houtcome⟩ := ofPlay_renumber h.outcome h.world.lines
  rw [ofPlay_play, ofPlay_play] at hlines houtcome
  exact ⟨hlines, houtcome, fun _ _ => h.world.store.sameContents⟩

/-- A registration that fails has said nothing. -/
theorem ofProgram_of_registration {program : Node} {fault : Fault}
    (h : (registration limits program).1 = .error fault) :
    ofProgram limits program = ⟨.error fault, []⟩ := by
  have hlines : (registration limits program).2.world.lines = #[] :=
    Evaluator.lines_register limits Evaluator.globalScope program.definitions Evaluator.global
  rw [← ofPlay_play, play, h]
  exact congrArg (fun lines => Run.mk (.error fault) lines.toList) hlines

theorem sameUpToIdentities_of_registration {program program' : Node} {fault : Fault}
    (h : (registration limits program).1 = .error fault)
    (h' : (registration limits program').1 = .error fault) :
    SameUpToIdentities limits program program' := by
  have hrun := ofProgram_of_registration h
  have hrun' := ofProgram_of_registration h'
  constructor
  · rw [hrun, hrun']
  · rw [hrun, hrun']
  · intro v hv
    rw [hrun] at hv
    cases hv

/-- **The order of definitions does not matter.** Let the definitions of a program that have
children denote functions, and let no two of them bind one name. If the children of the root are put
in another order, the program says the same lines and ends in the same way under all limits: with
the same fault, or without a `main`, or with a value that has the same contents. -/
theorem sameUpToIdentities_of_perm (limits : Limits) {program : Node} (h : program.Unambiguous)
    {children : List Node} (hperm : program.children.Perm children) :
    SameUpToIdentities limits program { program with children := children } := by
  have hdefinitions : program.definitions.Perm { program with children := children }.definitions :=
    hperm.filter _
  have hall : ∀ d ∈ program.definitions, d.Denotable := fun _ hd => h.denotable hd
  have hregister : Evaluator.RegisterAlike limits Evaluator.globalScope _ _ :=
    Evaluator.registerAlike_of_perm hdefinitions hall h.apart
  obtain ⟨houtcome, halike⟩ := hregister _ _ Evaluator.alike_global
  rw [← registration, ← registration] at houtcome halike
  cases hr : (registration limits program).1 with
  | error fault => exact sameUpToIdentities_of_registration hr (houtcome.trans hr)
  | ok u =>
    obtain ⟨π, hπ⟩ := (halike hr).renumbered
    have hdepth : (registration limits { program with children := children }).2.depth
        = (registration limits program).2.depth := by
      rw [depth_registration, depth_registration]
    have hplay : PlaysAlike π (play limits program)
        (play limits { program with children := children }) := by
      rw [play, play, houtcome, hr]
      exact playsAlike_playRegistered hπ hdepth
    exact hplay.sameUpToIdentities

/-! ### A program in two orders -/

/-- The definition of a function without parameters. -/
def plain (name : String) (body : Node) : Node :=
  { kind := .definition, value := some (.text name), children := [body] }

/-- A program whose `main` returns a function that is defined after it. -/
def handing : Node :=
  { kind := .program
    children := [plain entryPoint { kind := .symbol, value := some (.text "greet") },
      plain "greet" { kind := .literal, value := some (.text "hello") }] }

/-- The same program in the other order. -/
def handingTurned : Node := { handing with children := handing.children.reverse }

/-- The function that it returns. -/
def greeter (identity : ℕ) : Value :=
  .closure ⟨identity, .nullary, .text "hello", Evaluator.globalScope⟩

/-- An evaluator after functions without parameters have been registered. -/
def plainlyBound : List (String × Form) → Evaluator :=
  List.foldl (fun e (name, body) => e.bindLambda Evaluator.globalScope name ⟨.nullary, body⟩)
    Evaluator.global

theorem registration_handing :
    registration ⟨9, 9⟩ handing
      = (.ok (), plainlyBound [(entryPoint, .symbol "greet"), ("greet", .text "hello")]) := by
  cbv

theorem registration_handingTurned :
    registration ⟨9, 9⟩ handingTurned
      = (.ok (), plainlyBound [("greet", .text "hello"), (entryPoint, .symbol "greet")]) := by
  cbv

theorem unambiguous_handing : handing.Unambiguous where
  denotes := by
    intro d hd _
    rcases List.mem_cons.1 hd with rfl | hd
    · exact ⟨⟨.nullary, .symbol "greet"⟩, by cbv⟩
    · obtain rfl := List.mem_singleton.1 hd
      exact ⟨⟨.nullary, .text "hello"⟩, by cbv⟩
  apart := by
    refine List.pairwise_pair.2 fun _ _ => ?_
    decide

/-- `main` returns what the name means. -/
theorem outcome_ofRegistered_handing {e : Evaluator} (identity : ℕ) {v : Value}
    (hmain : e.world.store.bound? Evaluator.globalScope entryPoint
      = some (.closure ⟨identity, .nullary, .symbol "greet", Evaluator.globalScope⟩))
    (hv : e.world.store.bound? Evaluator.globalScope "greet" = some v)
    (hsteps : e.world.steps = 2) (hdepth : e.depth = 0) :
    (ofRegistered ⟨9, 9⟩ e).outcome = .ok (.finished v) := by
  simp only [ofRegistered, Store.lookup?_of_bound? hmain, Evaluator.apply_eq_finish]
  simp [call, run_eq_finish, step, begin, resume, Limits.exceeded, World.tick, World.enter,
    Store.lookup, Store.lookup?_child_self, Store.lookup?_of_bound? hv, hdepth, hsteps,
    Params.bind, Params.bindSlots, Params.slots]

theorem outcome_handing :
    (ofProgram ⟨9, 9⟩ handing).outcome = .ok (.finished (greeter 1)) := by
  rw [ofProgram, ← registration, registration_handing]
  exact outcome_ofRegistered_handing 0 rfl rfl rfl rfl

theorem outcome_handingTurned :
    (ofProgram ⟨9, 9⟩ handingTurned).outcome = .ok (.finished (greeter 0)) := by
  rw [ofProgram, ← registration, registration_handingTurned]
  exact outcome_ofRegistered_handing 1 rfl rfl rfl rfl

/-- In the two orders `main` returns functions with different identities and the same contents. -/
theorem sameUpToIdentities_handing :
    handing.Unambiguous ∧ handing.children.Perm handing.children.reverse ∧
      (ofProgram ⟨9, 9⟩ handing).outcome = .ok (.finished (greeter 1)) ∧
      (ofProgram ⟨9, 9⟩ handingTurned).outcome = .ok (.finished (greeter 0)) ∧
      SameUpToIdentities ⟨9, 9⟩ handing handingTurned := by
  have hperm := (List.reverse_perm handing.children).symm
  exact ⟨unambiguous_handing, hperm, outcome_handing, outcome_handingTurned,
    sameUpToIdentities_of_perm ⟨9, 9⟩ unambiguous_handing hperm⟩

end Run

end OutlineLisp
