import OutlineLisp.Proofs.Machine.Correspondence
import OutlineLisp.Proofs.Scope.Widening

/-!
# One more name

Worlds correspond if they differ only in identities and in one name that an outermost scope of the
second one binds besides. A run in the first world looks that name up where it means something
already, and then it means the same in the second; or it is found to mean nothing, and then the
first run ends. So a call that does not end in this way ends in the same way in both worlds.

## Main definitions

* `World.Widened`: worlds in which one scope binds one more name.
* `Machine.widening`: the correspondence of such worlds.

## Main results

* `Machine.widened_finish_call`: calls in such worlds end in the same way.
-/

namespace OutlineLisp

variable {scope : ScopeId} {y : String} {π : ℕ → ℕ}

/-! ### Worlds -/

/-- Whether a world is another one in which a scope binds one more name, and which has other
identities. -/
structure World.Widened (scope : ScopeId) (y : String) (π : ℕ → ℕ) (w w' : World) : Prop where
  store : w.store.Widened scope y π w'.store
  /-- What is given from now on is given in the same order. -/
  fresh : ∀ n, π (w.fresh + n) = w'.fresh + n
  steps : w'.steps = w.steps
  lines : w'.lines = w.lines

namespace World.Widened

variable {w w' : World}

theorem tick (h : w.Widened scope y π w') : w.tick.Widened scope y π w'.tick :=
  { h with steps := congrArg Nat.succ h.steps }

theorem draw (h : w.Widened scope y π w') : w.draw.Widened scope y π w'.draw :=
  { h with
    fresh := fun n => by
      show π (w.fresh + 1 + n) = w'.fresh + 1 + n
      rw [Nat.add_assoc, h.fresh, Nat.add_assoc] }

theorem say (h : w.Widened scope y π w') (line : Option String) :
    (w.say line).Widened scope y π (w'.say line) := by
  cases line with
  | none => exact h
  | some line => exact { h with lines := congrArg (Array.push · line) h.lines }

theorem enter (h : w.Widened scope y π w') (p : ScopeId) (ps : Params) (args : List Value) :
    (w.enter p (ps.bind args)).Widened scope y π
      (w'.enter p (ps.bind (args.map (Value.renumber π)))) := by
  have hstore := h.store.child p (ps.bind args)
  rw [Params.bind, ← Params.bindSlots_renumber] at hstore
  exact { h with store := hstore }

theorem lookup? (h : w.Widened scope y π w') (id : ScopeId) (x : String) :
    w'.store.lookup? id x = (w.store.lookup? id x).map (Value.renumber π) ∨
      w.store.lookup? id x = none ∧ x = y := by
  by_cases hx : x = y → w.store.lookup? id x ≠ none
  · exact .inl (h.store.lookup? hx)
  · simp only [Classical.not_imp, not_not] at hx
    exact .inr ⟨hx.2, hx.1⟩

end World.Widened

/-! ### Runs -/

namespace Machine

/-- Worlds in which a scope binds one more name correspond. Only this name is excused from meaning
nothing. -/
def widening (scope : ScopeId) (y : String) (hπ : π.Injective) : Correspondence π where
  worlds := World.Widened scope y π
  excused x := x = y
  injective := hπ
  steps h := h.steps
  size h := h.store.size
  fresh h := h.fresh 0
  lookup? h := h.lookup?
  tick h := h.tick
  draw h := h.draw
  say h := h.say
  enter h := h.enter

/-- **A call ends in the same way where one more name is bound,** unless it ends because that name
means nothing. -/
theorem widened_finish_call (limits : Limits) (hπ : π.Injective) {w w' : World}
    (hw : w.Widened scope y π w') (callee : Value) (args : List Value) (stack : List Frame)
    (depth : ℕ)
    (hy : ((call limits callee args stack depth w).finish limits).outcome
      ≠ .error (.unbound y)) :
    (widening scope y hπ).OnResult ((call limits callee args stack depth w).finish limits)
      ((call limits (callee.renumber π) (args.map (Value.renumber π))
        (stack.map (Frame.renumber π)) depth w').finish limits) := by
  have hworlds : (widening scope y hπ).worlds w w' := hw
  refine (Correspondence.call callee args stack depth hworlds).finish.resolve_right ?_
  rintro ⟨x, rfl, hx⟩
  exact hy hx

end Machine

end OutlineLisp
