import Mathlib.Data.List.Infix
import OutlineLisp.Execution.Run
import OutlineLisp.Proofs.Execution.Registration
import OutlineLisp.Proofs.Machine.Limits
import OutlineLisp.Proofs.Machine.Termination
import OutlineLisp.Proofs.Scope.Growth

/-!
# What a program needs

A run of a program that is not cut short uses a number of steps, those of registration among them,
and a number of calls in progress at one time. Other limits that are at least that lead to the very
same run; any others cut it short. However that may be, the lines under limits begin those under
higher ones.

## Main definitions

* `Run.usage`: what a run of a program uses.

## Main results

* `Evaluator.register_eq_or_cutShort`: the same registration under other limits.
* `Run.ofProgram_eq_iff_usage_le`: the same run under other limits.
-/

namespace OutlineLisp

namespace Evaluator

open Machine

variable {limits limits' : Limits}

/-- The steps taken and the calls in progress of an evaluator. -/
def need (e : Evaluator) : Limits := ⟨e.world.steps, e.depth⟩

theorem need_le_register (limits : Limits) (scope : ScopeId) (definitions : List Node)
    (e : Evaluator) : e.need ≤ (register limits scope definitions e).2.need := by
  induction definitions generalizing e with
  | nil => exact le_refl _
  | cons definition definitions ih =>
    rw [register_cons]
    split
    · exact le_refl _
    · exact ih e
    · next l _ =>
      split
      · have hbind : e.need ≤ (e.bindLambda scope (definition.text?.getD "") l).need :=
          ⟨Nat.le_succ _, le_refl _⟩
        exact hbind.trans (ih _)
      · exact ⟨Nat.le_succ _, le_refl _⟩

/-- **The same registration under other limits.** Unless it is cut short, other limits lead to the
same evaluator exactly if they allow what it has used. -/
theorem register_eq_or_cutShort {scope : ScopeId} {definitions : List Node} {e : Evaluator}
    (hs : e.need ≤ limits') (h : ¬CutShort (register limits scope definitions e).1) :
    (register limits scope definitions e).2.need ≤ limits' ∧
        register limits' scope definitions e = register limits scope definitions e ∨
      ¬(register limits scope definitions e).2.need ≤ limits' ∧
        CutShort (register limits' scope definitions e).1 := by
  induction definitions generalizing e with
  | nil => exact .inl ⟨hs, rfl⟩
  | cons definition definitions ih =>
    rw [register_cons] at h ⊢
    rw [register_cons]
    cases hl : Lambda.ofDefinition definition with
    | error fault => exact .inl ⟨hs, rfl⟩
    | ok o =>
      cases o with
      | none =>
        simp only [hl] at h
        exact ih hs h
      | some l =>
        simp only [hl] at h
        by_cases hlt : e.world.steps < limits.steps
        · rw [if_pos hlt] at h
          simp only [if_pos hlt]
          by_cases hlt' : e.world.steps < limits'.steps
          · rw [if_pos hlt']
            exact ih ⟨hlt', hs.2⟩ h
          · rw [if_neg hlt']
            refine .inr ⟨fun hle => hlt' ?_, cutShort_steps _⟩
            exact ((need_le_register limits scope definitions _).trans hle).1
        · rw [if_neg hlt] at h
          exact absurd (cutShort_steps _) h

end Evaluator

namespace Run

open Machine

variable {limits limits' : Limits}

/-- What a run uses whose definitions have been registered. -/
def usageOfRegistered (limits : Limits) (e : Evaluator) : Limits :=
  match e.world.store.lookup? Evaluator.globalScope entryPoint with
  | some main => (call limits main [] [] e.depth e.world).usage limits
  | none => e.need

/-- What a run of a program uses: the steps taken at its end, those of registration among them, and
the most calls that are in progress at one time. Registration makes no call. -/
def usage (limits : Limits) (program : Node) : Limits :=
  match Evaluator.global.register limits Evaluator.globalScope program.definitions with
  | (.ok _, e) => usageOfRegistered limits e
  | (.error _, e) => e.need

/-! ### The call of `main` -/

/-- What a run makes of the result of calling `main`. -/
def ofResult (r : Result) : Run :=
  match r.outcome with
  | .ok v => ⟨.ok (.finished v), (r.world.say (some completionLine)).lines.toList⟩
  | .error fault => ⟨.error fault, r.world.lines.toList⟩

theorem ofRegistered_of_none (limits : Limits) {e : Evaluator}
    (h : e.world.store.lookup? Evaluator.globalScope entryPoint = none) :
    ofRegistered limits e
      = ⟨.ok .noEntryPoint, (e.world.say (some noEntryPointLine)).lines.toList⟩ := by
  simp only [ofRegistered, h]

theorem ofRegistered_of_some (limits : Limits) {e : Evaluator} {main : Value}
    (h : e.world.store.lookup? Evaluator.globalScope entryPoint = some main) :
    ofRegistered limits e
      = ofResult ((call limits main [] [] e.depth e.world).finish limits) := by
  simp only [ofRegistered, h, Evaluator.apply_eq_finish, ofResult]
  cases ((call limits main [] [] e.depth e.world).finish limits).outcome <;> rfl

theorem ofResult_of_cutShort {r : Result} (h : CutShort r.outcome) :
    CutShort (ofResult r).outcome ∧ (ofResult r).lines = r.world.lines.toList := by
  obtain ⟨fault, hfault, hcut⟩ := h
  rw [ofResult, hfault]
  exact ⟨⟨fault, rfl, hcut⟩, rfl⟩

theorem not_cutShort_of_ofResult {r : Result} (h : ¬CutShort (ofResult r).outcome) :
    ¬CutShort r.outcome := fun hcut => h (ofResult_of_cutShort hcut).1

theorem lines_prefix_ofResult (r : Result) : r.world.lines.toList <+: (ofResult r).lines := by
  rw [ofResult]
  split
  · exact (precedes_say r.world _).lines
  · exact List.prefix_refl _

theorem ofRegistered_eq_or_cutShort {e : Evaluator} (hs : e.need ≤ limits) (hs' : e.need ≤ limits')
    (h : ¬CutShort (ofRegistered limits e).outcome) :
    usageOfRegistered limits e ≤ limits' ∧ ofRegistered limits' e = ofRegistered limits e ∨
      ¬usageOfRegistered limits e ≤ limits' ∧ CutShort (ofRegistered limits' e).outcome := by
  rw [usageOfRegistered]
  cases hmain : e.world.store.lookup? Evaluator.globalScope entryPoint with
  | none =>
    refine .inl ⟨hs', ?_⟩
    rw [ofRegistered_of_none limits hmain, ofRegistered_of_none limits' hmain]
  | some main =>
    rw [ofRegistered_of_some limits hmain] at h
    rw [ofRegistered_of_some limits hmain, ofRegistered_of_some limits' hmain]
    rcases finish_call_eq_or_cutShort hs hs' (not_cutShort_of_ofResult h) with
      ⟨hle, heq⟩ | ⟨hle, hcut⟩
    · exact .inl ⟨hle, by rw [heq]⟩
    · exact .inr ⟨hle, (ofResult_of_cutShort hcut).1⟩

theorem lines_ofRegistered_mono {e : Evaluator} (hle : limits ≤ limits') (hs : e.need ≤ limits) :
    (ofRegistered limits e).lines <+: (ofRegistered limits' e).lines := by
  cases hmain : e.world.store.lookup? Evaluator.globalScope entryPoint with
  | none =>
    rw [ofRegistered_of_none limits hmain, ofRegistered_of_none limits' hmain]
  | some main =>
    rw [ofRegistered_of_some limits hmain, ofRegistered_of_some limits' hmain]
    have hcall : SameOrLonger ((call limits main [] [] e.depth e.world).finish limits)
        ((call limits' main [] [] e.depth e.world).finish limits') := finish_call_mono hle hs
    rcases hcall with heq | ⟨hcut, hlines⟩
    · rw [heq]
    · rw [(ofResult_of_cutShort hcut).2]
      exact hlines.trans (lines_prefix_ofResult _)

theorem need_le_usageOfRegistered (limits : Limits) {e : Evaluator} (h : e.depth = 0) :
    e.need ≤ usageOfRegistered limits e := by
  rw [usageOfRegistered]
  split
  · next main _ =>
    refine ⟨?_, (Nat.le_of_eq h).trans (Nat.zero_le _)⟩
    exact ((calls_call main [] [] e.depth e.world).precedes.trans (precedes_finish limits _)).steps
  · exact le_refl _

/-! ### The run of a program -/

theorem need_global_le (limits : Limits) : Evaluator.global.need ≤ limits :=
  ⟨limits.steps.zero_le, limits.calls.zero_le⟩

theorem ofProgram_of_ok {program : Node} {e : Evaluator}
    (h : Evaluator.global.register limits Evaluator.globalScope program.definitions = (.ok (), e)) :
    ofProgram limits program = ofRegistered limits e ∧
      usage limits program = usageOfRegistered limits e := by
  rw [ofProgram, usage, h]
  exact ⟨rfl, rfl⟩

theorem ofProgram_of_error {program : Node} {e : Evaluator} {fault : Fault}
    (h : Evaluator.global.register limits Evaluator.globalScope program.definitions
      = (.error fault, e)) :
    ofProgram limits program = ⟨.error fault, e.world.lines.toList⟩ ∧
      usage limits program = e.need := by
  rw [ofProgram, usage, h]
  exact ⟨rfl, rfl⟩

/-- A registration that is cut short leaves a run that is, and that says nothing. -/
theorem ofProgram_of_cutShort {program : Node}
    (h : CutShort (Evaluator.global.register limits Evaluator.globalScope program.definitions).1) :
    CutShort (ofProgram limits program).outcome ∧ (ofProgram limits program).lines = [] := by
  have hlines := Evaluator.lines_register limits Evaluator.globalScope program.definitions
    Evaluator.global
  rcases hr : Evaluator.global.register limits Evaluator.globalScope program.definitions
    with ⟨outcome, e⟩
  rw [hr] at h hlines
  obtain ⟨fault, rfl, hcut⟩ := h
  rw [(ofProgram_of_error hr).1]
  exact ⟨⟨fault, rfl, hcut⟩, by rw [hlines]; rfl⟩

/-- A run that is not cut short is the same under limits that allow what it uses, and cut short
under all others. -/
theorem ofProgram_eq_or_cutShort {program : Node} (limits' : Limits)
    (h : ¬CutShort (ofProgram limits program).outcome) :
    usage limits program ≤ limits' ∧ ofProgram limits' program = ofProgram limits program ∨
      ¬usage limits program ≤ limits' ∧ CutShort (ofProgram limits' program).outcome := by
  -- Registration is not cut short either, so the two limits agree about it or the others cut it.
  have hcut := fun hcut => h (ofProgram_of_cutShort hcut).1
  have hsame := Evaluator.register_eq_or_cutShort (need_global_le limits) hcut
  have hother := Evaluator.register_eq_or_cutShort (need_global_le limits') hcut
  have hdepth := Evaluator.depth_register limits Evaluator.globalScope program.definitions
    Evaluator.global
  rcases hr : Evaluator.global.register limits Evaluator.globalScope program.definitions
    with ⟨fault | ⟨⟩, e⟩
  · rw [hr] at hother
    rw [(ofProgram_of_error hr).1, (ofProgram_of_error hr).2]
    rcases hother with ⟨hle, heq⟩ | ⟨hle, hshort⟩
    · exact .inl ⟨hle, (ofProgram_of_error heq).1⟩
    · exact .inr ⟨hle, (ofProgram_of_cutShort hshort).1⟩
  · rw [hr] at hother hsame hdepth hcut
    rw [(ofProgram_of_ok hr).1] at h
    rw [(ofProgram_of_ok hr).1, (ofProgram_of_ok hr).2]
    have hs : e.need ≤ limits := hsame.resolve_right (fun hs => hcut hs.2) |>.1
    rcases hother with ⟨hle, heq⟩ | ⟨hle, hshort⟩
    · rw [(ofProgram_of_ok heq).1]
      exact ofRegistered_eq_or_cutShort hs hle h
    · refine .inr ⟨fun hle' => hle ?_, (ofProgram_of_cutShort hshort).1⟩
      exact (need_le_usageOfRegistered limits hdepth).trans hle'

/-- Higher limits only add lines. -/
theorem lines_ofProgram_mono (hle : limits ≤ limits') (program : Node) :
    (ofProgram limits program).lines <+: (ofProgram limits' program).lines := by
  by_cases hcut : CutShort
      (Evaluator.global.register limits Evaluator.globalScope program.definitions).1
  · rw [(ofProgram_of_cutShort hcut).2]
    exact List.nil_prefix
  · have hsame := Evaluator.register_eq_or_cutShort (need_global_le limits) hcut
    have hother := Evaluator.register_eq_or_cutShort (need_global_le limits') hcut
    have hs := (hsame.resolve_right fun hs => hcut hs.2).1
    have heq := (hother.resolve_right fun hs' => hs'.1 (hs.trans hle)).2
    rcases hr : Evaluator.global.register limits Evaluator.globalScope program.definitions
      with ⟨fault | ⟨⟩, e⟩
    · rw [hr] at heq
      rw [(ofProgram_of_error hr).1, (ofProgram_of_error heq).1]
    · rw [hr] at hs heq
      rw [(ofProgram_of_ok hr).1, (ofProgram_of_ok heq).1]
      exact lines_ofRegistered_mono hle hs

/-- **Limits only cut runs short.** If a run of a program is not cut short, then other limits lead
to the same run exactly if they allow what it uses, and all others cut it short. Whether or not it
is cut short, higher limits only add lines. -/
theorem ofProgram_eq_iff_usage_le (program : Node) :
    (∀ limits, ¬CutShort (ofProgram limits program).outcome → ∀ limits',
      (ofProgram limits' program = ofProgram limits program ↔ usage limits program ≤ limits') ∧
      (¬usage limits program ≤ limits' → CutShort (ofProgram limits' program).outcome)) ∧
    ∀ limits limits', limits ≤ limits' →
      (ofProgram limits program).lines <+: (ofProgram limits' program).lines := by
  refine ⟨fun limits h limits' => ?_, fun limits limits' hle => lines_ofProgram_mono hle program⟩
  rcases ofProgram_eq_or_cutShort limits' h with ⟨hle, heq⟩ | ⟨hle, hcut⟩
  · exact ⟨⟨fun _ => hle, fun _ => heq⟩, fun hnot => absurd hle hnot⟩
  · exact ⟨⟨fun heq => absurd (heq ▸ hcut) h, fun hle' => absurd hle' hle⟩, fun _ => hcut⟩

/-! ### A program with one definition -/

/-- A program whose `main` is a text. -/
def greeting : Node :=
  { kind := .program
    children := [{ kind := .definition
                   value := some (.text entryPoint)
                   children := [{ kind := .literal, value := some (.text "hello") }] }] }

/-- The evaluator after its definition has been registered. -/
def greeted : Evaluator :=
  Evaluator.global.bindLambda Evaluator.globalScope entryPoint ⟨.nullary, .text "hello"⟩

theorem register_greeting :
    Evaluator.global.register ⟨2, 1⟩ Evaluator.globalScope greeting.definitions
      = (.ok (), greeted) := by
  cbv

theorem lookup?_greeted :
    greeted.world.store.lookup? Evaluator.globalScope entryPoint
      = some (.closure ⟨0, .nullary, .text "hello", Evaluator.globalScope⟩) :=
  Store.lookup?_of_bound? rfl

theorem steps_greeted : greeted.world.steps = 1 := rfl

theorem depth_greeted : greeted.depth = 0 := rfl

/-- Registration takes one step and the call of `main` another. -/
theorem ofProgram_greeting :
    ofProgram ⟨2, 1⟩ greeting = ⟨.ok (.finished (.text "hello")), [completionLine]⟩ ∧
      usage ⟨2, 1⟩ greeting = ⟨2, 1⟩ := by
  rw [(ofProgram_of_ok register_greeting).1, (ofProgram_of_ok register_greeting).2,
    ofRegistered_of_some _ lookup?_greeted, usageOfRegistered, lookup?_greeted]
  constructor
  · simp [call, run_eq_finish, step, begin, resume, Limits.exceeded, World.tick, World.enter,
      depth_greeted, steps_greeted, ofResult]
    rfl
  · simp [Step.usage, Step.peak, peak_eq, call, run_eq_finish, step, begin, resume,
      Limits.exceeded, World.tick, World.enter, depth_greeted, steps_greeted]

/-- The program runs in two steps with one call, and neither in one step nor without a call. -/
theorem ofProgram_greeting_eq_or_cutShort :
    ¬CutShort (ofProgram ⟨2, 1⟩ greeting).outcome ∧
      ofProgram ⟨7, 3⟩ greeting = ofProgram ⟨2, 1⟩ greeting ∧
      CutShort (ofProgram ⟨1, 3⟩ greeting).outcome ∧
      CutShort (ofProgram ⟨7, 0⟩ greeting).outcome ∧
      (ofProgram ⟨1, 3⟩ greeting).lines <+: (ofProgram ⟨7, 3⟩ greeting).lines := by
  have h : ¬CutShort (ofProgram ⟨2, 1⟩ greeting).outcome := by
    rw [ofProgram_greeting.1]
    exact not_cutShort_ok _
  have hiff := (ofProgram_eq_iff_usage_le greeting).1 ⟨2, 1⟩ h
  rw [ofProgram_greeting.2] at hiff
  refine ⟨h, (hiff ⟨7, 3⟩).1.2 (by decide), (hiff ⟨1, 3⟩).2 (by decide),
    (hiff ⟨7, 0⟩).2 (by decide), ?_⟩
  exact (ofProgram_eq_iff_usage_le greeting).2 ⟨1, 3⟩ ⟨7, 3⟩ (by decide)

end Run

end OutlineLisp
