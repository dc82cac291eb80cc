import OutlineLisp.Outline.Line
import OutlineLisp.Proofs.Text.Trimming

/-!
# Markers and what they mark

What a line says behind its marker is a tidy text again, since the line was trimmed before. So a
bullet is never without content: a marker that nothing follows is itself the content.

## Main definitions

* `LineKind.Tidy`: what a line says is tidy.

## Main results

* `Text.Tidy.stripMarker`, `Line.stripMarker_ne_nil`: what remains without a marker.
* `Line.tidy_classify`: tidy lines say something tidy.
* `Line.indentLevel_indented`: the level of a text behind some blanks.
-/

namespace OutlineLisp

open Text

/-- Names are tidy, and so are contents, which are not empty either. -/
def LineKind.Tidy : LineKind → Prop
  | .heading name => Text.Tidy name.toList
  | .bullet content => Text.Tidy content.toList ∧ content.toList ≠ []
  | .prose => True

namespace Line

variable {cs : List Char}

/-! ### Stripping markers -/

theorem stripMarker_eq_or (cs : List Char) :
    stripMarker cs = cs ∨
      ∃ m rest, cs = m :: rest ∧ rest ≠ [] ∧ stripMarker cs = trimStart rest := by
  match cs with
  | [] => exact .inl rfl
  | [m] => exact .inl rfl
  | m :: c :: rest =>
    rw [stripMarker]
    split
    · exact .inr ⟨m, c :: rest, rfl, List.cons_ne_nil _ _, rfl⟩
    · exact .inl rfl

/-- A marker and the blank after it are stripped. -/
theorem stripMarker_marked {m : Char} (hm : isMarker m = true) (h : StartsVisible cs) :
    stripMarker (m :: ' ' :: cs) = cs := by
  have hblank : isBlank ' ' = true := by decide
  rw [stripMarker, hm, hblank, Bool.and_self, if_pos rfl, trimStart,
    List.dropWhile_cons_of_pos hblank]
  exact trimStart_of_startsVisible h

theorem stripMarker_subset (cs : List Char) : stripMarker cs ⊆ cs := by
  rcases stripMarker_eq_or cs with h | ⟨m, rest, rfl, -, h⟩ <;> rw [h]
  · exact List.Subset.refl cs
  · exact fun c hc => List.mem_cons_of_mem m (List.dropWhile_subset isBlank hc)

theorem stripMarker_ne_nil (hne : cs ≠ []) (h : EndsVisible cs) : stripMarker cs ≠ [] := by
  rcases stripMarker_eq_or cs with hs | ⟨m, rest, rfl, hrest, hs⟩ <;> rw [hs]
  · exact hne
  · exact trimStart_ne_nil hrest ((endsVisible_cons m hrest).1 h)

end Line

theorem Text.Tidy.stripMarker {cs : List Char} (h : Tidy cs) : Tidy (Line.stripMarker cs) := by
  refine ⟨?_, fun hmem => h.newline_notMem (Line.stripMarker_subset cs hmem)⟩
  rcases Line.stripMarker_eq_or cs with hs | ⟨m, rest, rfl, hrest, hs⟩ <;> rw [hs]
  · exact h.trimmed
  · exact trimmed_iff.2 ⟨startsVisible_trimStart rest,
      endsVisible_trimStart ((endsVisible_cons m hrest).1 h.endsVisible)⟩

namespace Line

variable {cs : List Char}

/-! ### Kinds of lines -/

/-- **What a tidy line says is tidy.** -/
theorem tidy_classify (h : Tidy cs) : (classify cs).Tidy := by
  rw [classify.eq_def]
  split
  · exact trivial
  · next c rest =>
    split
    · rw [LineKind.Tidy, String.toList_ofList]
      exact tidy_trim fun hmem =>
        h.newline_notMem (List.mem_cons_of_mem c (List.dropWhile_subset _ hmem))
    · split
      · rw [LineKind.Tidy, String.toList_ofList]
        exact ⟨h.stripMarker, stripMarker_ne_nil (List.cons_ne_nil c rest) h.endsVisible⟩
      · exact trivial

/-! ### Indented lines -/

theorem width_replicate (n : Nat) : width (List.replicate n ' ') = n := by
  have hwidth : blankWidth ' ' = 1 := rfl
  induction n with
  | zero => rfl
  | succ n ih => rw [List.replicate_succ, width, List.foldr_cons, ← width, ih, hwidth, Nat.add_comm]

theorem indentLevel_indented (k : Nat) (h : StartsVisible cs) :
    indentLevel (List.replicate (2 * k) ' ' ++ cs) = k := by
  have hblank : ∀ c ∈ List.replicate (2 * k) ' ', isBlank c = true := by
    intro c hc
    rw [List.eq_of_mem_replicate hc]
    decide
  rw [indentLevel, leading, takeWhile_append_eq hblank h, width_replicate,
    Nat.mul_div_cancel_left k (by decide)]

end Line

end OutlineLisp
