import OutlineLisp.Proofs.Machine.Correspondence
import OutlineLisp.Proofs.Scope.Identity

/-!
# Identities do not matter

Two worlds that differ only in identities correspond: the same names are looked up in scopes with
the same numbers, and the identities that are given from then on are the same ones. On identities
that are already given the two worlds may disagree, as long as different identities of the one are
different in the other.

## Main definitions

* `World.Renumbered`: worlds with other identities.
* `Machine.renumbering`: the correspondence of such worlds.

## Main results

* `Machine.renumbered_finish_call`: calls in such worlds end in the same way.
-/

namespace OutlineLisp

variable {π σ : ℕ → ℕ}

/-! ### Worlds -/

/-- Whether a world is another one with other identities. Those that are not given yet are the
same. -/
structure World.Renumbered (π : ℕ → ℕ) (w w' : World) : Prop where
  injective : π.Injective
  /-- What has not been given away is not given another number. -/
  fixes : ∀ n, w.fresh ≤ n → π n = n
  store : w.store.Renumbered π w'.store
  fresh : w'.fresh = w.fresh
  steps : w'.steps = w.steps
  lines : w'.lines = w.lines

namespace World.Renumbered

variable {w w' w'' : World}

theorem refl (w : World) : w.Renumbered id w :=
  ⟨Function.injective_id, fun _ _ => rfl, .refl w.store, rfl, rfl, rfl⟩

theorem trans (h : w.Renumbered π w') (h' : w'.Renumbered σ w'') : w.Renumbered (σ ∘ π) w'' where
  injective := h'.injective.comp h.injective
  fixes n hn := by rw [Function.comp_apply, h.fixes n hn, h'.fixes n (h.fresh ▸ hn)]
  store := h.store.trans h'.store
  fresh := h'.fresh.trans h.fresh
  steps := h'.steps.trans h.steps
  lines := h'.lines.trans h.lines

/-- The next identity is the same. -/
theorem renumber_fresh (h : w.Renumbered π w') : π w.fresh = w'.fresh := by
  rw [h.fixes _ (Nat.le_refl _), h.fresh]

theorem tick (h : w.Renumbered π w') : w.tick.Renumbered π w'.tick :=
  { h with steps := congrArg Nat.succ h.steps }

theorem draw (h : w.Renumbered π w') : w.draw.Renumbered π w'.draw :=
  { h with
    fixes := fun n hn => h.fixes n (Nat.le_of_succ_le hn)
    fresh := congrArg Nat.succ h.fresh }

theorem say (h : w.Renumbered π w') (line : Option String) :
    (w.say line).Renumbered π (w'.say line) := by
  cases line with
  | none => exact h
  | some line => exact { h with lines := congrArg (Array.push · line) h.lines }

theorem enter (h : w.Renumbered π w') (scope : ScopeId) (ps : Params) (args : List Value) :
    (w.enter scope (ps.bind args)).Renumbered π
      (w'.enter scope (ps.bind (args.map (Value.renumber π)))) := by
  have hstore := h.store.child scope (ps.bind args)
  rw [Params.bind, ← Params.bindSlots_renumber] at hstore
  exact { h with store := hstore }

end World.Renumbered

namespace Machine

/-! ### Runs -/

/-- Worlds that differ only in identities correspond, and no name is excused. -/
def renumbering (hπ : π.Injective) : Correspondence π where
  worlds := World.Renumbered π
  excused _ := False
  injective := hπ
  steps h := h.steps
  size h := h.store.size
  fresh h := h.renumber_fresh
  lookup? h scope x := .inl (h.store.lookup? scope x)
  tick h := h.tick
  draw h := h.draw
  say h := h.say
  enter h := h.enter

/-- **Calls of values that differ only in identities end in the same way,** in worlds that differ
only in identities. -/
theorem renumbered_finish_call (limits : Limits) {w w' : World} (hw : w.Renumbered π w')
    (callee : Value) (args : List Value) (stack : List Frame) (depth : ℕ) :
    (renumbering hw.injective).OnResult ((call limits callee args stack depth w).finish limits)
      ((call limits (callee.renumber π) (args.map (Value.renumber π))
        (stack.map (Frame.renumber π)) depth w').finish limits) := by
  have hworlds : (renumbering hw.injective).worlds w w' := hw
  refine (Correspondence.call callee args stack depth hworlds).finish.resolve_right ?_
  exact fun ⟨_, hfalse, _⟩ => hfalse

end Machine

end OutlineLisp
