import OutlineLisp.Proofs.Machine.Scopes
import OutlineLisp.Proofs.Scope.Provenance

/-!
# Any number of arguments

A function takes as many arguments as it has slots or operands. A call with fewer arguments has nil
for those that are missing, and one with more drops the rest. So the number of arguments never
matters by itself: only the arguments that are taken do, and only `print` takes all that there are.

## Main definitions

* `Value.takes?`: how many arguments a function takes.
* `Value.fit`: as many arguments as are taken.
* `Store.BindsArguments`: a scope that binds names to the arguments of a call, and nothing else.

## Main results

* `Machine.call_congr`: a call depends on no other arguments than those that are taken.
* `Evaluator.fitsArguments`: functions can be called with any number of arguments.
-/

namespace OutlineLisp

/-- The number of operands of a primitive. `print` has as many as there are arguments. -/
def Primitive.operandCount? : Primitive → Option ℕ
  | logicalNot | car | cdr => some 1
  | print => none
  | _ => some 2

namespace Value

/-- How many arguments a function takes: a closure one for each slot, and a primitive one for each
operand. -/
def takes? : Value → Option ℕ
  | closure c => some c.params.arity
  | primitive p => p.operandCount?
  | _ => none

/-! ### Arguments that are taken -/

/-- As many arguments as are taken: the first ones, and nil in place of those that are missing. -/
def fit (n : ℕ) (args : List Value) : List Value :=
  args.take n ++ List.replicate (n - args.length) nil

/-- Whether two calls have the same arguments as far as these are taken. A missing one is nil. -/
def AgreeUpTo (n : ℕ) (args args' : List Value) : Prop :=
  ∀ i < n, args[i]?.getD nil = args'[i]?.getD nil

variable {n : ℕ} {args args' : List Value}

theorem length_fit (n : ℕ) (args : List Value) : (fit n args).length = n := by
  simp only [fit, List.length_append, List.length_take, List.length_replicate]
  omega

/-- Nil behind the arguments stands for what is missing anyway. -/
theorem agreeUpTo_append_nil (n k : ℕ) (args : List Value) :
    AgreeUpTo n (args ++ List.replicate k nil) args := by
  intro i _
  rw [List.getElem?_append]
  split
  · rfl
  · next hle =>
    rw [List.getElem?_eq_none (Nat.le_of_not_lt hle), List.getElem?_replicate]
    split <;> rfl

theorem agreeUpTo_take {k : ℕ} (h : n ≤ k) (args : List Value) :
    AgreeUpTo n (args.take k) args := by
  intro i hi
  rw [List.getElem?_take_of_lt (Nat.lt_of_lt_of_le hi h)]

theorem AgreeUpTo.trans {args'' : List Value} (h : AgreeUpTo n args args')
    (h' : AgreeUpTo n args' args'') : AgreeUpTo n args args'' :=
  fun i hi => (h i hi).trans (h' i hi)

theorem agreeUpTo_fit (n : ℕ) (args : List Value) : AgreeUpTo n (fit n args) args :=
  (agreeUpTo_append_nil n _ _).trans (agreeUpTo_take n.le_refl args)

/-- The first of the arguments that are taken. -/
theorem AgreeUpTo.headD_eq (h : AgreeUpTo (n + 1) args args') :
    args.headD nil = args'.headD nil := by
  have hzero := h 0 n.succ_pos
  rwa [← List.head?_eq_getElem?, ← List.head?_eq_getElem?, ← List.headD_eq_head?_getD,
    ← List.headD_eq_head?_getD] at hzero

/-- The arguments that are taken after the first. -/
theorem AgreeUpTo.tail (h : AgreeUpTo (n + 1) args args') : AgreeUpTo n args.tail args'.tail := by
  intro i hi
  rw [List.getElem?_tail, List.getElem?_tail]
  exact h (i + 1) (Nat.succ_lt_succ hi)

end Value

open Value

/-! ### What calls depend on -/

theorem Params.bindSlots_congr {slots : List (Option String)} {args args' : List Value}
    (h : AgreeUpTo slots.length args args') : bindSlots slots args = bindSlots slots args' := by
  induction slots generalizing args args' with
  | nil => rfl
  | cons slot slots ih =>
    have hrest := ih h.tail
    cases slot with
    | none => exact hrest
    | some name => rw [bindSlots, bindSlots, h.headD_eq, hrest]

/-- What a primitive answers and says depends on its operands only. -/
theorem Primitive.result_congr {p : Primitive} {n : ℕ} (hp : p.operandCount? = some n)
    {args args' : List Value} (h : AgreeUpTo n args args') (fresh : ℕ) :
    p.result fresh args = p.result fresh args' ∧ p.said? args = p.said? args' := by
  cases p with
  | print => cases hp
  | logicalNot | car | cdr =>
    cases hp
    have ha : first args = first args' := h.headD_eq
    simp only [result, ha, said?, and_self]
  | _ =>
    cases hp
    have ha : first args = first args' := h.headD_eq
    have hb : second args = second args' := h.tail.headD_eq
    simp only [result, ha, hb, said?, and_self]

/-- **A call depends on no other arguments** than those that are taken. -/
theorem Machine.call_congr {f : Value} {n : ℕ} (hf : f.takes? = some n) {args args' : List Value}
    (h : AgreeUpTo n args args') (limits : Limits) (stack : List Frame) (depth : ℕ) (w : World) :
    call limits f args stack depth w = call limits f args' stack depth w := by
  cases f with
  | primitive p =>
    obtain ⟨hresult, hsaid⟩ := Primitive.result_congr hf h w.fresh
    simp only [call, hresult, hsaid]
  | closure c =>
    cases hf
    have hbind : c.params.bind args = c.params.bind args' := Params.bindSlots_congr h
    simp only [call, hbind]
  | _ => cases hf

/-! ### The scope of a call -/

/-- Whether a scope binds each name of some parameters to the argument at the last slot with that
name, and no other name. -/
structure Store.BindsArguments (st : Store) (id : ScopeId) (ps : Params) (args : List Value) :
    Prop where
  named : ∀ x, some x ∈ ps.slots → ∃ k, ps.slots[k]? = some (some x) ∧
    (∀ j : ℕ, k < j → ps.slots[j]? ≠ some (some x)) ∧ st.bound? id x = some (args[k]?.getD .nil)
  others : ∀ x, some x ∉ ps.slots → st.bound? id x = none

/-- Every name of some slots has a last slot. -/
theorem Params.exists_last_slot {slots : List (Option String)} {x : String}
    (h : some x ∈ slots) : ∃ k, slots[k]? = some (some x) ∧ some x ∉ slots.drop (k + 1) := by
  induction slots with
  | nil => cases h
  | cons slot slots ih =>
    by_cases hrest : some x ∈ slots
    · obtain ⟨k, hk, hlast⟩ := ih hrest
      exact ⟨k + 1, hk, hlast⟩
    · obtain rfl := (List.mem_cons.1 h).resolve_right hrest
      exact ⟨0, rfl, hrest⟩

theorem Store.bindsArguments_child (st : Store) (p : ScopeId) (ps : Params) (args : List Value) :
    (st.child p (ps.bind args)).BindsArguments st.size ps args where
  named x hx := by
    obtain ⟨k, hk, hlast⟩ := Params.exists_last_slot hx
    refine ⟨k, hk, fun j hj hslot => hlast ?_, ?_⟩
    · exact List.mem_of_getElem? (i := j - (k + 1)) (by
        rw [List.getElem?_drop, Nat.add_sub_cancel' hj, hslot])
    · rw [bound?_child, if_pos rfl, Params.bind, Params.lookup_reverse_bindSlots hk hlast]
  others x hx := by
    rw [bound?_child, if_pos rfl, Params.bind, Params.lookup_reverse_bindSlots_eq_none hx]

/-- A scope that is kept binds what it did. -/
theorem Store.BindsArguments.keptIn {st st' : Store} {id : ScopeId} {ps : Params}
    {args : List Value} (h : st.BindsArguments id ps args) (hid : id < st.size)
    (hkept : st.KeptIn st') : st'.BindsArguments id ps args where
  named x hx := by
    obtain ⟨k, hk, hlast, hbound⟩ := h.named x hx
    exact ⟨k, hk, hlast, (hkept.bound?_eq hid x).trans hbound⟩
  others x hx := (hkept.bound?_eq hid x).trans (h.others x hx)

namespace Evaluator

open Machine

/-- What an evaluator makes of any number of arguments. -/
structure FitsArguments (limits : Limits) (e : Evaluator) : Prop where
  /-- A call with any arguments is the call with exactly as many as are taken. -/
  fitted : ∀ f n, f.takes? = some n → ∀ args,
    (fit n args).length = n ∧ e.apply limits f args = e.apply limits f (fit n args)
  /-- So is a call within a run, whatever waits for its answer. -/
  within : ∀ f n, f.takes? = some n → ∀ args stack depth w,
    call limits f args stack depth w = call limits f (fit n args) stack depth w
  /-- Arguments beyond those that are taken can be dropped. -/
  dropped : ∀ f n, f.takes? = some n → ∀ args k, n ≤ k →
    e.apply limits f (args.take k) = e.apply limits f args
  /-- Nil can be appended in place of missing arguments. -/
  padded : ∀ f n, f.takes? = some n → ∀ args k,
    e.apply limits f (args ++ List.replicate k .nil) = e.apply limits f args
  /-- Unless the call of a closure is refused, its body is evaluated in a new scope, which binds the
  names to the arguments from the beginning of the call to its end. -/
  scope : ∀ c args, e.depth < limits.calls →
    (∃ s, call limits (.closure c) args [] e.depth e.world = .next s ∧
      s.control = .eval c.body e.world.store.size) ∧
    ∀ k, (scopesAt limits (call limits (.closure c) args [] e.depth e.world) k).BindsArguments
      e.world.store.size c.params args

theorem apply_congr {f : Value} {n : ℕ} (hf : f.takes? = some n) {args args' : List Value}
    (h : AgreeUpTo n args args') (limits : Limits) (e : Evaluator) :
    e.apply limits f args = e.apply limits f args' := by
  rw [apply, apply, call_congr hf h]

/-- **Functions can be called with any number of arguments.** -/
theorem fitsArguments (limits : Limits) (e : Evaluator) : e.FitsArguments limits where
  fitted f n hf args :=
    ⟨length_fit n args, (apply_congr hf (agreeUpTo_fit n args) limits e).symm⟩
  within f n hf args stack depth w :=
    (call_congr hf (agreeUpTo_fit n args) limits stack depth w).symm
  dropped f n hf args k hk := apply_congr hf (agreeUpTo_take hk args) limits e
  padded f n hf args k := apply_congr hf (agreeUpTo_append_nil n k args) limits e
  scope c args hdepth := by
    have hcall : call limits (.closure c) args [] e.depth e.world
        = .next ⟨.eval c.body e.world.store.size, [.body], e.depth + 1,
          e.world.enter c.scope (c.params.bind args)⟩ := by
      rw [call, if_neg (Nat.not_le.2 hdepth)]
    refine ⟨⟨_, hcall, rfl⟩, fun k => ?_⟩
    have hstart : (scopesAt limits (call limits (.closure c) args [] e.depth e.world) 0)
        = e.world.store.child c.scope (c.params.bind args) := by
      rw [hcall]
      rfl
    have hkept := (grows_scopesAt limits (call limits (.closure c) args [] e.depth e.world)
      k.zero_le).keptIn
    rw [hstart] at hkept
    refine (Store.bindsArguments_child _ _ _ _).keptIn ?_ hkept
    rw [Store.size_child]
    exact Nat.lt_succ_self _

end Evaluator

end OutlineLisp
