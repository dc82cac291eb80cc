import Mathlib.Data.List.DropRight
import OutlineLisp.Proofs.Runs
import OutlineLisp.Text.Blank

/-!
# Trimmed texts

A text is trimmed when trimming does not change it, which is to say that it has no blank character
at either end. What trimming makes is trimmed.

## Main definitions

* `Text.Trimmed`: the property.
* `Text.Tidy`: a trimmed text of a single line.

## Main results

* `Text.trimmed_iff`: the characters at the ends of a trimmed text.
* `Text.trimmed_trim`: trimming makes trimmed texts.
* `Text.trim_append`: blanks in front do not count.
-/

namespace OutlineLisp

namespace Text

variable {cs : List Char}

/-! ### The ends of a text -/

/-- A text does not start with a blank character. -/
def StartsVisible (cs : List Char) : Prop := Stops isBlank cs

/-- A text does not end with a blank character. -/
def EndsVisible (cs : List Char) : Prop := ∀ c ∈ cs.getLast?, isBlank c = false

theorem endsVisible_append {ds : List Char} (hne : ds ≠ []) :
    EndsVisible (cs ++ ds) ↔ EndsVisible ds := by
  rw [EndsVisible, EndsVisible, List.getLast?_append_of_ne_nil _ hne]

theorem endsVisible_cons (c : Char) (hne : cs ≠ []) : EndsVisible (c :: cs) ↔ EndsVisible cs :=
  by
  rw [← List.singleton_append, endsVisible_append hne]

theorem endsVisible_concat {c : Char} (h : isBlank c = false) (cs : List Char) :
    EndsVisible (cs ++ [c]) := by
  rw [endsVisible_append (List.cons_ne_nil _ _)]
  exact stops_cons h []

theorem startsVisible_trimStart (cs : List Char) : StartsVisible (trimStart cs) :=
  stops_dropWhile isBlank cs

theorem trimStart_of_startsVisible (h : StartsVisible cs) : trimStart cs = cs :=
  dropWhile_of_stops h

/-- Of a text that does not end in blanks something remains. -/
theorem trimStart_ne_nil (hne : cs ≠ []) (h : EndsVisible cs) : trimStart cs ≠ [] := by
  intro hnil
  have hall := List.dropWhile_eq_nil_iff.1 hnil
  have hlast := h _ (List.getLast?_eq_some_getLast hne)
  rw [hall _ (List.getLast_mem hne)] at hlast
  cases hlast

theorem endsVisible_trimStart (h : EndsVisible cs) : EndsVisible (trimStart cs) := by
  by_cases hnil : trimStart cs = []
  · rw [hnil]
    intro c hc
    cases hc
  · obtain ⟨bs, hbs⟩ := (List.dropWhile_suffix isBlank : cs.dropWhile isBlank <:+ cs)
    rw [← hbs] at h
    exact (endsVisible_append hnil).1 h

theorem trimEnd_eq_rdropWhile (cs : List Char) : trimEnd cs = cs.rdropWhile isBlank := rfl

theorem endsVisible_trimEnd (cs : List Char) : EndsVisible (trimEnd cs) := by
  intro c hc
  obtain ⟨hne, rfl⟩ := List.mem_getLast?_eq_getLast hc
  exact Bool.eq_false_iff.2 (List.rdropWhile_last_not _ _ hne)

theorem trimEnd_of_endsVisible (h : EndsVisible cs) : trimEnd cs = cs := by
  rw [trimEnd_eq_rdropWhile, List.rdropWhile_eq_self_iff]
  intro hne
  rw [h _ (List.getLast?_eq_some_getLast hne)]
  exact Bool.false_ne_true

theorem trimEnd_prefix_self (cs : List Char) : trimEnd cs <+: cs := List.rdropWhile_prefix _ _

theorem trim_subset (cs : List Char) : trim cs ⊆ cs := fun _ h =>
  List.dropWhile_subset isBlank ((trimEnd_prefix_self _).subset h)

/-! ### Trimmed texts -/

/-- Trimming does not change the text. -/
def Trimmed (cs : List Char) : Prop := trim cs = cs

instance (cs : List Char) : Decidable (Trimmed cs) := inferInstanceAs (Decidable (trim cs = cs))

theorem StartsVisible.trimEnd (h : StartsVisible cs) : StartsVisible (trimEnd cs) := by
  intro c hc
  obtain ⟨ds, hds⟩ := trimEnd_prefix_self cs
  refine h c ?_
  rw [← hds]
  exact List.mem_head?_append_of_mem_head? hc

theorem startsVisible_trim (cs : List Char) : StartsVisible (trim cs) :=
  (startsVisible_trimStart cs).trimEnd

theorem endsVisible_trim (cs : List Char) : EndsVisible (trim cs) := endsVisible_trimEnd _

/-- **A trimmed text** has no blank character at either end. -/
theorem trimmed_iff : Trimmed cs ↔ StartsVisible cs ∧ EndsVisible cs := by
  constructor
  · intro h
    rw [← h]
    exact ⟨startsVisible_trim cs, endsVisible_trim cs⟩
  · rintro ⟨hstart, hend⟩
    rw [Trimmed, trim, trimStart_of_startsVisible hstart, trimEnd_of_endsVisible hend]

/-- **What trimming makes is trimmed.** -/
theorem trimmed_trim (cs : List Char) : Trimmed (trim cs) :=
  trimmed_iff.2 ⟨startsVisible_trim cs, endsVisible_trim cs⟩

theorem trimmed_of_forall (h : ∀ c ∈ cs, isBlank c = false) : Trimmed cs :=
  trimmed_iff.2 ⟨fun c hc => h c (List.mem_of_mem_head? hc),
    fun c hc => h c (List.mem_of_mem_getLast? hc)⟩

/-- Blank characters in front do not count. -/
theorem trim_append {bs : List Char} (h : ∀ c ∈ bs, isBlank c = true) (cs : List Char) :
    trim (bs ++ cs) = trim cs := by
  rw [trim, trim, trimStart, trimStart, List.dropWhile_append_of_pos h]

/-! ### Tidy texts -/

/-- A trimmed text without newlines. -/
structure Tidy (cs : List Char) : Prop where
  trimmed : Trimmed cs
  newline_notMem : '\n' ∉ cs

theorem tidy_trim (h : '\n' ∉ cs) : Tidy (trim cs) :=
  ⟨trimmed_trim cs, fun hmem => h (trim_subset cs hmem)⟩

theorem Tidy.startsVisible (h : Tidy cs) : StartsVisible cs := (trimmed_iff.1 h.trimmed).1

theorem Tidy.endsVisible (h : Tidy cs) : EndsVisible cs := (trimmed_iff.1 h.trimmed).2

end Text

end OutlineLisp
