import OutlineLisp.Proofs.Text.Trimming
import OutlineLisp.Source.Document

/-!
# Lines that are written one after the other

No line of a document has a newline in it. Conversely, lines without newlines that are written one
after the other, each with a newline behind it, are the lines of what is written, up to the empty
line behind the last newline. They must not end in a carriage return, which would count as a part of
the line break.

## Main definitions

* `Document.unlines`: lines written one after the other.
* `Document.NoReturn`: texts that lose nothing as lines.

## Main results

* `Document.newline_notMem_of_mem_lines`: lines have no newlines.
* `Document.lines_unlines`: the lines of what is written.
* `Document.lines_append`: the lines of two texts, one after the other.
-/

namespace OutlineLisp

namespace Document

/-- Lines written one after the other. -/
def unlines (ls : List (List Char)) : List Char := ls.flatMap (· ++ ['\n'])

/-! ### Pieces between newlines -/

theorem newline_notMem_of_mem_pieces {cs piece : List Char} (h : piece ∈ pieces cs) :
    '\n' ∉ piece := by
  induction cs generalizing piece with
  | nil => rw [List.mem_singleton.1 h]; exact List.not_mem_nil
  | cons c cs ih =>
    rw [pieces_cons] at h
    cases hp : pieces cs with
    | nil => exact absurd hp (pieces_ne_nil cs)
    | cons first rest =>
      rw [hp] at h ih
      by_cases hc : c = '\n'
      · rw [splitStep, if_pos hc] at h
        rcases List.mem_cons.1 h with rfl | h
        · exact List.not_mem_nil
        · exact ih h
      · rw [splitStep, if_neg hc] at h
        rcases List.mem_cons.1 h with rfl | h
        · intro hmem
          rcases List.mem_cons.1 hmem with rfl | hmem
          · exact hc rfl
          · exact ih List.mem_cons_self hmem
        · exact ih (List.mem_cons_of_mem _ h)

theorem pieces_newline (cs : List Char) : pieces ('\n' :: cs) = [] :: pieces cs := by
  rw [pieces_cons]
  cases hp : pieces cs with
  | nil => exact absurd hp (pieces_ne_nil cs)
  | cons first rest => rw [splitStep, if_pos rfl]

/-- Up to the first newline there is one piece. -/
theorem pieces_append_newline {l : List Char} (h : '\n' ∉ l) (rest : List Char) :
    pieces (l ++ '\n' :: rest) = l :: pieces rest := by
  induction l with
  | nil => exact pieces_newline rest
  | cons c l ih =>
    have hc : c ≠ '\n' := by
      rintro rfl
      exact h List.mem_cons_self
    rw [List.cons_append, pieces_cons, ih fun hl => h (List.mem_cons_of_mem c hl), splitStep,
      if_neg hc]

theorem pieces_unlines {ls : List (List Char)} (h : ∀ l ∈ ls, '\n' ∉ l) :
    pieces (unlines ls) = ls ++ [[]] := by
  induction ls with
  | nil => rfl
  | cons l ls ih =>
    rw [unlines, List.flatMap_cons, List.append_assoc, List.singleton_append,
      pieces_append_newline (h l List.mem_cons_self), ← unlines,
      ih fun l' hl' => h l' (List.mem_cons_of_mem l hl'), List.cons_append]

/-! ### Carriage returns -/

theorem dropReturns_prefix_self (cs : List Char) : dropReturns cs <+: cs :=
  List.rdropWhile_prefix _ _

/-- A text does not end in a carriage return. -/
def NoReturn (cs : List Char) : Prop := ∀ c ∈ cs.getLast?, c ≠ '\r'

/-- Carriage returns are blank. -/
theorem noReturn_of_endsVisible {cs : List Char} (h : Text.EndsVisible cs) : NoReturn cs := by
  rintro c hc rfl
  exact absurd (h _ hc) (by decide)

theorem dropReturns_of_noReturn {cs : List Char} (h : NoReturn cs) : dropReturns cs = cs :=
  List.rdropWhile_eq_self_iff.2 fun hne hreturn =>
    h _ (List.getLast?_eq_some_getLast hne) (of_decide_eq_true hreturn)

/-! ### Lines -/

/-- **Lines have no newlines.** -/
theorem newline_notMem_of_mem_lines {d : Document} {l : List Char} (h : l ∈ d.lines) :
    '\n' ∉ l := by
  obtain ⟨piece, hpiece, rfl⟩ := List.mem_map.1 h
  intro hmem
  exact newline_notMem_of_mem_pieces hpiece ((dropReturns_prefix_self piece).subset hmem)

/-- **The lines of what is written** are the lines that were written, and an empty one. -/
theorem lines_unlines (name : String) {ls : List (List Char)}
    (h : ∀ l ∈ ls, '\n' ∉ l ∧ NoReturn l) :
    lines ⟨name, String.ofList (unlines ls)⟩ = ls ++ [[]] := by
  have hreturns : ls.map dropReturns = ls := by
    conv_rhs => rw [← List.map_id ls]
    exact List.map_congr_left fun l hl => dropReturns_of_noReturn (h l hl).2
  rw [lines, String.toList_ofList, pieces_unlines fun l hl => (h l hl).1, List.map_append, hreturns]
  rfl

/-! ### Documents one after the other -/

/-- A newline separates the pieces before it from those after it. -/
theorem pieces_append (cs ds : List Char) : pieces (cs ++ '\n' :: ds) = pieces cs ++ pieces ds := by
  induction cs with
  | nil => exact pieces_newline ds
  | cons c cs ih =>
    rw [List.cons_append, pieces_cons, ih, pieces_cons]
    cases hp : pieces cs with
    | nil => exact absurd hp (pieces_ne_nil cs)
    | cons first rest =>
      rw [List.cons_append, splitStep, splitStep]
      split <;> rfl

/-- **The lines of two texts** are those of the first and those of the second. -/
theorem lines_append (name s t : String) :
    lines ⟨name, s ++ "\n" ++ t⟩ = lines ⟨name, s⟩ ++ lines ⟨name, t⟩ := by
  have htext : (s ++ "\n" ++ t).toList = s.toList ++ '\n' :: t.toList := by simp
  rw [lines, htext, pieces_append, List.map_append]
  rfl

end Document

end OutlineLisp
