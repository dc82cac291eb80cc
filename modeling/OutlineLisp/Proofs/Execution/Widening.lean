import OutlineLisp.Proofs.Execution.Bindings
import OutlineLisp.Proofs.Execution.Limits
import OutlineLisp.Proofs.Machine.Metering
import OutlineLisp.Proofs.Machine.Widening

/-!
# One more definition

A definition may be added to a program, anywhere among the others, under a name that the program
does not have. Registration then takes one more step and gives one more identity, and the global
scope binds one more name. If the run of the program did not end because that very name meant
nothing, it never looked the name up in the global scope; so the run stays as it was. Parameters may
have the same name.

## Main definitions

* `passOver`: identities among which one more is given.
* `Run.SameBeside`: what the runs of two programs have in common if one of them has one more name.

## Main results

* `Evaluator.widened_bindAll`: functions are bound alike beside one more name.
* `Run.sameBeside_insert`: a program with one more definition runs alike.
-/

namespace OutlineLisp

/-! ### One more identity -/

/-- Numbers that are moved up by one from `k` on, so that `k` is passed over. -/
def passOver (k n : ℕ) : ℕ := if n < k then n else n + 1

theorem passOver_of_lt {k n : ℕ} (h : n < k) : passOver k n = n := if_pos h

theorem passOver_add (k n : ℕ) : passOver k (k + n) = k + 1 + n := by
  rw [passOver, if_neg (Nat.not_lt.2 (Nat.le_add_right k n)), Nat.add_right_comm]

theorem passOver_injective (k : ℕ) : (passOver k).Injective := by
  intro m n h
  simp only [passOver] at h
  split at h <;> split at h <;> omega

namespace Node

/-- What is among the functions of definitions is the function of one of them. -/
theorem exists_of_mem_functions {ds : List Node} {f : String × Lambda} (h : f ∈ functions ds) :
    ∃ d ∈ ds, d.boundName = f.1 ∧ Lambda.ofDefinition d = .ok (some f.2) := by
  obtain ⟨d, hd, hf⟩ := List.mem_filterMap.1 h
  rw [function?] at hf
  split at hf
  · next l hl =>
    cases hf
    exact ⟨d, hd, rfl, hl⟩
  · cases hf

/-- A definition that is inserted among the children is inserted among the definitions. -/
theorem exists_definitions_insert {program d : Node} {before after : List Node}
    (hchildren : program.children = before ++ after) (hkind : d.kind = .definition) :
    ∃ ds ds', program.definitions = ds ++ ds' ∧
      { program with children := before ++ d :: after }.definitions = ds ++ d :: ds' := by
  refine ⟨before.filter fun n => n.kind = .definition, after.filter fun n => n.kind = .definition,
    ?_, ?_⟩
  · rw [definitions, hchildren, List.filter_append]
  · rw [definitions, List.filter_append, List.filter_cons_of_pos (by simpa using hkind)]

end Node

open Node (functions)

namespace Evaluator

open Machine

variable {limits : Limits} {scope : ScopeId} {e e' : Evaluator} {y name : String} {π : ℕ → ℕ}

/-! ### Registration -/

/-- A world is widened by binding a function under a name that the scope does not bind. This takes a
step. -/
theorem widened_bindLambda_self (halike : Alike scope e e)
    (hparent : e.world.store.parent? scope = none) (hy : e.world.store.bound? scope y = none)
    (l : Lambda) :
    (e.world.spend 1).Widened scope y (passOver e.world.fresh)
      (e.bindLambda scope y l).world where
  store := halike.below.widened (fun _ => passOver_of_lt) halike.scope_lt hparent hy _
  fresh := passOver_add e.world.fresh
  steps := rfl
  lines := rfl

/-- Then any other name may be bound. -/
theorem widened_bindLambda (h : (e.world.spend 1).Widened scope y π e'.world) (hname : name ≠ y)
    (l : Lambda) :
    ((e.bindLambda scope name l).world.spend 1).Widened scope y π
      (e'.bindLambda scope name l).world := by
  have hstore := h.store.define h.store.scope_lt hname
    (.closure ⟨e.world.fresh, l.params, l.body, scope⟩)
  have hfresh : π e.world.fresh = e'.world.fresh := h.fresh 0
  rw [Value.renumber, hfresh] at hstore
  exact { h.tick.draw with store := hstore }

/-- **Functions are bound alike beside one more name.** -/
theorem widened_bindAll (h : (e.world.spend 1).Widened scope y π e'.world)
    {fs : List (String × Lambda)} (hfs : ∀ f ∈ fs, f.1 ≠ y) :
    ((e.bindAll scope fs).world.spend 1).Widened scope y π (e'.bindAll scope fs).world := by
  induction fs generalizing e e' with
  | nil => exact h
  | cons f fs ih =>
    obtain ⟨hf, hfs⟩ := List.forall_mem_cons.1 hfs
    exact ih (widened_bindLambda h hf f.2) hfs

/-- A name that no primitive has is not bound at first. -/
theorem bound?_global_eq_none (hy : ∀ p : Primitive, p.name ≠ y) (id : ScopeId) :
    global.world.store.bound? id y = none := by
  refine Option.eq_none_iff_forall_ne_some.2 fun v hv => ?_
  rw [bound?_global] at hv
  split at hv
  · obtain ⟨p, -, hp⟩ := List.mem_map.1 (mem_of_lookup_reverse hv)
    exact hy p (congrArg Prod.fst hp)
  · cases hv

/-- One more function leaves a fault that ends the registration as it is. -/
theorem register_insert_of_error {ds ds' : List Node} {d : Node} {l : Lambda} {fault : Fault}
    (hd : Lambda.ofDefinition d = .ok (some l))
    (h : register limits scope (ds ++ ds') e = (.error fault, e'))
    (hsteps : e'.world.steps < limits.steps) :
    (register limits scope (ds ++ d :: ds') e).1 = .error fault := by
  rw [register_append] at h ⊢
  rcases hds : register limits scope ds e with ⟨fault' | _, e₁⟩
  · rw [hds] at h
    exact congrArg Prod.fst h
  · rw [hds] at h
    obtain ⟨done, b, rest, rfl, hdone, hb, hleft⟩ := exists_of_register_eq_error h hsteps
    have hbind : (e₁.bindLambda scope d.boundName l).world.steps = e₁.world.steps + 1 := rfl
    dsimp only
    rw [register_of_lt hd (by omega), register_eq_error hdone hb (by omega)]

/-- One more function is bound among the others if a step is left for it. -/
theorem register_insert_of_ok {ds ds' : List Node} {d : Node} {l : Lambda}
    (hd : Lambda.ofDefinition d = .ok (some l))
    (h : register limits scope (ds ++ ds') e = (.ok (), e'))
    (hsteps : e'.world.steps < limits.steps) :
    e' = e.bindAll scope (functions ds ++ functions ds') ∧
      register limits scope (ds ++ d :: ds') e
        = (.ok (), e.bindAll scope (functions ds ++ (d.boundName, l) :: functions ds')) := by
  have hfunctions : functions (ds ++ d :: ds')
      = functions ds ++ (d.boundName, l) :: functions ds' := by
    rw [Node.functions_append, Node.functions_cons, Node.functions_of_some hd,
      List.singleton_append]
  obtain ⟨hall, rfl⟩ := of_register_eq_ok h
  rw [steps_bindAll, Node.functions_append, List.length_append] at hsteps
  refine ⟨by rw [Node.functions_append], ?_⟩
  rw [register_eq_bindAll, hfunctions]
  · intro b hb
    rcases List.mem_append.1 hb with hb | hb
    · exact hall b (List.mem_append_left ds' hb)
    · rcases List.mem_cons.1 hb with rfl | hb
      · exact ⟨some l, hd⟩
      · exact hall b (List.mem_append_right ds hb)
  · rw [hfunctions, List.length_append, List.length_cons]
    omega

/-- A function may be inserted among the others under a name that none of them has. -/
theorem exists_widened_insert (hprimitive : ∀ p : Primitive, p.name ≠ y)
    {fs fs' : List (String × Lambda)} (hfs : ∀ f ∈ fs, f.1 ≠ y) (hfs' : ∀ f ∈ fs', f.1 ≠ y)
    (l : Lambda) :
    ∃ π : ℕ → ℕ, π.Injective ∧
      ((global.bindAll globalScope (fs ++ fs')).world.spend 1).Widened globalScope y π
        (global.bindAll globalScope (fs ++ (y, l) :: fs')).world := by
  have halike : Alike globalScope (global.bindAll globalScope fs)
      (global.bindAll globalScope fs) :=
    bindAll_keeps (P := fun e => Alike globalScope e e) (fun _ name l h => h.bindLambda name l) fs
      alike_global
  have hy : (global.bindAll globalScope fs).world.store.bound? globalScope y = none := by
    have hlookup : fs.reverse.lookup y = none := by
      refine List.lookup_eq_none_iff.2 fun f hf => ?_
      exact bne_iff_ne.2 (hfs f (List.mem_reverse.1 hf)).symm
    rw [bound?_bindAll_of_none alike_global.scope_lt hlookup]
    exact bound?_global_eq_none hprimitive globalScope
  refine ⟨_, passOver_injective (global.bindAll globalScope fs).world.fresh, ?_⟩
  rw [bindAll_append, bindAll_append]
  exact widened_bindAll (widened_bindLambda_self halike (Store.parent?_zero _) hy l) hfs'

/-- **One more definition is registered among the others** under a name that none of them has. If
the registration of the others leaves a step, the outcome is the same, and after success one more
name is bound. -/
theorem register_insert {ds ds' : List Node} {d : Node} {l : Lambda}
    (hd : Lambda.ofDefinition d = .ok (some l)) (hprimitive : ∀ p : Primitive, p.name ≠ d.boundName)
    (hname : ∀ b ∈ ds ++ ds', b.children ≠ [] → b.boundName ≠ d.boundName)
    (hsteps : (register limits globalScope (ds ++ ds') global).2.world.steps < limits.steps) :
    (register limits globalScope (ds ++ d :: ds') global).1
        = (register limits globalScope (ds ++ ds') global).1 ∧
      ((register limits globalScope (ds ++ ds') global).1 = .ok () → ∃ π : ℕ → ℕ, π.Injective ∧
        ((register limits globalScope (ds ++ ds') global).2.world.spend 1).Widened globalScope
          d.boundName π (register limits globalScope (ds ++ d :: ds') global).2.world) := by
  rcases h : register limits globalScope (ds ++ ds') global with ⟨fault | ⟨⟩, e⟩
  · rw [h] at hsteps
    exact ⟨register_insert_of_error hd h hsteps, nofun⟩
  · rw [h] at hsteps
    obtain ⟨rfl, hinsert⟩ := register_insert_of_ok hd h hsteps
    have hfs : ∀ f ∈ functions ds ++ functions ds', f.1 ≠ d.boundName := by
      intro f hf
      rw [← Node.functions_append] at hf
      obtain ⟨b, hb, hbound, hl⟩ := Node.exists_of_mem_functions hf
      exact hbound ▸ hname b hb (Lambda.children_ne_nil hl)
    rw [hinsert]
    exact ⟨rfl, fun _ => exists_widened_insert hprimitive
      (fun f hf => hfs f (List.mem_append_left _ hf))
      (fun f hf => hfs f (List.mem_append_right _ hf)) l⟩

end Evaluator

namespace Run

open Machine

variable {limits : Limits} {e e' : Evaluator} {y : String} {π : ℕ → ℕ}

/-! ### The call of `main` -/

/-- What a run has used is what the world that it leaves has counted. -/
theorem steps_usage (limits : Limits) (program : Node) :
    (usage limits program).steps = (play limits program).2.steps := by
  rw [usage, play, ← registration]
  rcases registration limits program with ⟨fault | _, e⟩
  · rfl
  · simp only [usageOfRegistered, playRegistered]
    cases e.world.store.lookup? Evaluator.globalScope entryPoint with
    | none => rfl
    | some main =>
      show ((call limits main [] [] e.depth e.world).finish limits).world.steps
        = (e.apply limits main []).2.world.steps
      rw [Evaluator.apply_eq_finish]

theorem steps_registration_le (limits : Limits) (program : Node) :
    (registration limits program).2.world.steps ≤ (usage limits program).steps := by
  have hdepth := depth_registration limits program
  rw [usage, ← registration]
  generalize registration limits program = r at hdepth ⊢
  rcases r with ⟨fault | _, e⟩
  · exact Nat.le_refl _
  · exact (need_le_usageOfRegistered limits hdepth).1

/-- Whether two plays differ only in identities, in one more step and in one more name. -/
structure PlaysBeside (y : String) (π : ℕ → ℕ) (r r' : Except Fault Ending × World) : Prop where
  outcome : r'.1 = r.1.map (Ending.renumber π)
  world : (r.2.spend 1).Widened Evaluator.globalScope y π r'.2

/-- `main` is called alike beside one more name if a step is left in the end. -/
theorem playsBeside_playRegistered (hπ : π.Injective)
    (h : (e.world.spend 1).Widened Evaluator.globalScope y π e'.world)
    (hdepth : e'.depth = e.depth) (hmain : y ≠ entryPoint)
    (hy : (playRegistered limits e).1 ≠ .error (.unbound y))
    (hsteps : (playRegistered limits e).2.steps < limits.steps) :
    PlaysBeside y π (playRegistered limits e) (playRegistered limits e') := by
  have hlookup : e'.world.store.lookup? Evaluator.globalScope entryPoint
      = (e.world.store.lookup? Evaluator.globalScope entryPoint).map (Value.renumber π) :=
    h.store.lookup? fun heq => absurd heq.symm hmain
  simp only [playRegistered, hlookup] at hy hsteps ⊢
  cases hvalue : e.world.store.lookup? Evaluator.globalScope entryPoint with
  | none => exact ⟨rfl, h⟩
  | some main =>
    simp only [hvalue, Option.map_some, Evaluator.apply_eq_finish, hdepth] at hy hsteps ⊢
    have hspend := finish_call_spend (n := 1) (Nat.succ_le_of_lt hsteps)
    have hresult := widened_finish_call limits hπ h main [] [] e.depth (by
      rw [hspend]
      exact fun hfault => hy (congrArg (Except.map Ending.finished) hfault))
    rw [hspend, List.map_nil, List.map_nil] at hresult
    refine ⟨?_, hresult.world⟩
    rw [hresult.outcome, Result.spend]
    cases ((call limits main [] [] e.depth e.world).finish limits).outcome <;> rfl

/-! ### Runs of a program with one more definition -/

/-- What the runs of two programs have in common if the second has one more name: the lines, and how
they end. Both meet the same fault, or both find no `main`, or both return values with the same
contents. Closures have the same contents if they keep scopes with one number, and then these scopes
bind the same names to values with the same contents, but for the added name in the global scope. -/
structure SameBeside (limits : Limits) (y : String) (program program' : Node) : Prop where
  lines : (ofProgram limits program').lines = (ofProgram limits program).lines
  outcome : (ofProgram limits program').outcome.map Ending.contents
    = (ofProgram limits program).outcome.map Ending.contents
  scopes : ∀ v, (ofProgram limits program).outcome = .ok (.finished v) →
    (play limits program).2.store.SameContentsBeside Evaluator.globalScope y
      (play limits program').2.store

theorem PlaysBeside.sameBeside {program program' : Node}
    (h : PlaysBeside y π (play limits program) (play limits program')) :
    SameBeside limits y program program' := by
  obtain ⟨hlines, houtcome⟩ := ofPlay_renumber h.outcome h.world.lines
  rw [ofPlay_play, ofPlay_play] at hlines houtcome
  exact ⟨hlines, houtcome, fun _ _ => h.world.store.sameContentsBeside⟩

theorem sameBeside_of_registration {program program' : Node} {fault : Fault}
    (h : (registration limits program).1 = .error fault)
    (h' : (registration limits program').1 = .error fault) :
    SameBeside limits y program program' := by
  have hrun := ofProgram_of_registration h
  have hrun' := ofProgram_of_registration h'
  refine ⟨by rw [hrun, hrun'], by rw [hrun, hrun'], fun v hv => ?_⟩
  rw [hrun] at hv
  cases hv

/-- **One more definition does no harm.** Let a definition that denotes a function be inserted among
the children of a program, and let its name be neither that of a primitive, nor `main`, nor that of
a definition with children. If the run of the program leaves a step, and does not end because that
name means nothing, then the longer program says the same lines and ends in the same way: with the
same fault, or without a `main`, or with a value that has the same contents. -/
theorem sameBeside_insert (limits : Limits) {program d : Node} {before after : List Node}
    {l : Lambda} (hchildren : program.children = before ++ after) (hkind : d.kind = .definition)
    (hd : Lambda.ofDefinition d = .ok (some l)) (hname : ¬program.Provides d.boundName)
    (hmain : d.boundName ≠ entryPoint)
    (hy : (ofProgram limits program).outcome ≠ .error (.unbound d.boundName))
    (hsteps : (usage limits program).steps < limits.steps) :
    SameBeside limits d.boundName program { program with children := before ++ d :: after } := by
  obtain ⟨ds, ds', hdefinitions, hinserted⟩ := Node.exists_definitions_insert hchildren hkind
  have hprimitive : ∀ p : Primitive, p.name ≠ d.boundName := fun p hp => hname (.inl ⟨p, hp⟩)
  have hbound : ∀ b ∈ program.definitions, b.children ≠ [] → b.boundName ≠ d.boundName :=
    fun b hb hb' heq => hname (.inr ⟨b, hb, hb', heq⟩)
  have hleft := Nat.lt_of_le_of_lt (steps_registration_le limits program) hsteps
  rw [hdefinitions] at hbound
  rw [registration, hdefinitions] at hleft
  obtain ⟨houtcome, hwidened⟩ := Evaluator.register_insert hd hprimitive hbound hleft
  rw [← hdefinitions, ← hinserted, ← registration, ← registration] at houtcome hwidened
  cases hr : (registration limits program).1 with
  | error fault => exact sameBeside_of_registration hr (houtcome.trans hr)
  | ok u =>
    obtain ⟨π, hπ, hworld⟩ := hwidened hr
    have hplay : play limits program = playRegistered limits (registration limits program).2 := by
      rw [play, hr]
    have hplay' : play limits { program with children := before ++ d :: after }
        = playRegistered limits
          (registration limits { program with children := before ++ d :: after }).2 := by
      rw [play, houtcome, hr]
    have hdepth : (registration limits { program with children := before ++ d :: after }).2.depth
        = (registration limits program).2.depth := by
      rw [depth_registration, depth_registration]
    rw [steps_usage, hplay] at hsteps
    rw [← ofPlay_play, ofPlay, hplay] at hy
    have hplays := playsBeside_playRegistered hπ hworld hdepth hmain hy hsteps
    rw [← hplay, ← hplay'] at hplays
    exact hplays.sameBeside

/-! ### A name that is also a parameter -/

/-- The definition of a function that returns its argument. -/
def echo : Node :=
  { kind := .definition, value := some (.text "echo")
    children := [{ kind := .symbol, value := some (.text "said") },
      { kind := .symbol, value := some (.text "said") }] }

/-- A program whose `main` calls this function. -/
def echoing : Node :=
  { kind := .program
    children := [plain entryPoint
        { kind := .symbol, value := some (.text "echo")
          children := [{ kind := .literal, value := some (.text "hello") }] },
      echo] }

/-- A definition under the name of the parameter. -/
def said : Node := plain "said" { kind := .literal, value := some (.text "nothing") }

/-- The evaluator after the definitions of the program have been registered. -/
def echoed : Evaluator :=
  (Evaluator.global.bindLambda Evaluator.globalScope entryPoint
    ⟨.nullary, .call (.symbol "echo") [.text "hello"]⟩).bindLambda Evaluator.globalScope "echo"
      ⟨.single "said", .symbol "said"⟩

theorem registration_echoing : registration ⟨9, 9⟩ echoing = (.ok (), echoed) := by
  cbv

/-- Registration takes two steps and the call of `main` four. -/
theorem playRegistered_echoed :
    (playRegistered ⟨9, 9⟩ echoed).1 = .ok (.finished (.text "hello")) ∧
      (playRegistered ⟨9, 9⟩ echoed).2.steps = 6 := by
  have hmain : echoed.world.store.bound? Evaluator.globalScope entryPoint
      = some (.closure ⟨0, .nullary, .call (.symbol "echo") [.text "hello"],
        Evaluator.globalScope⟩) := rfl
  have hecho : echoed.world.store.bound? Evaluator.globalScope "echo"
      = some (.closure ⟨1, .single "said", .symbol "said", Evaluator.globalScope⟩) := rfl
  have hsaid (st : Store) (h : st.size = echoed.world.store.size + 1) :
      (st.child Evaluator.globalScope [("said", .text "hello")]).lookup?
        (echoed.world.store.size + 1) "said" = some (.text "hello") := by
    rw [← h, Store.lookup?_child_self]
    rfl
  have hdepth : echoed.depth = 0 := rfl
  have hsteps : echoed.world.steps = 2 := rfl
  simp only [playRegistered, Store.lookup?_of_bound? hmain, Evaluator.apply_eq_finish]
  constructor <;>
    simp [call, run_eq_finish, step, begin, resume, collect, Limits.exceeded, World.tick,
      World.enter, Store.lookup, Store.lookup?_child_self, Store.lookup?_of_bound? hecho, hsaid,
      hdepth, hsteps, Params.bind, Params.bindSlots, Params.slots, Value.callable, Except.map]

theorem not_provides_echoing : ¬echoing.Provides said.boundName := by
  rintro (⟨p, hp⟩ | ⟨b, hb, -, hname⟩)
  · cases p <;> exact absurd hp (by decide)
  · revert hname
    revert b
    decide

/-- The parameter means the argument all the same. -/
theorem sameBeside_echoing :
    echoing.children = echoing.children.take 1 ++ [echo] ∧ said.kind = .definition ∧
      Lambda.ofDefinition said = .ok (some ⟨.nullary, .text "nothing"⟩) ∧
      ¬echoing.Provides said.boundName ∧ said.boundName ≠ entryPoint ∧
      (ofProgram ⟨9, 9⟩ echoing).outcome = .ok (.finished (.text "hello")) ∧
      (usage ⟨9, 9⟩ echoing).steps < 9 ∧
      SameBeside ⟨9, 9⟩ said.boundName echoing
        { echoing with children := echoing.children.take 1 ++ said :: [echo] } := by
  have hd : Lambda.ofDefinition said = .ok (some ⟨.nullary, .text "nothing"⟩) := rfl
  have hplay : play ⟨9, 9⟩ echoing = playRegistered ⟨9, 9⟩ echoed := by
    rw [play, registration_echoing]
  have houtcome : (ofProgram ⟨9, 9⟩ echoing).outcome = .ok (.finished (.text "hello")) := by
    rw [← ofPlay_play, ofPlay, hplay]
    exact playRegistered_echoed.1
  have hsteps : (usage ⟨9, 9⟩ echoing).steps < 9 := by
    rw [steps_usage, hplay, playRegistered_echoed.2]
    decide
  have hmain : said.boundName ≠ entryPoint := by decide
  have hfault : (ofProgram ⟨9, 9⟩ echoing).outcome ≠ .error (.unbound said.boundName) := by
    rw [houtcome]
    rintro ⟨⟩
  exact ⟨rfl, rfl, hd, not_provides_echoing, hmain, houtcome, hsteps,
    sameBeside_insert ⟨9, 9⟩ rfl rfl hd not_provides_echoing hmain hfault hsteps⟩

end Run

end OutlineLisp
