import OutlineLisp.Proofs.Value.Fringe
import OutlineLisp.Proofs.Value.Inheritance

/-!
# Pairs in another order

A structure of pairs can be re-associated: of three values, either the last two are paired first or
the first two. Doing this again and again, anywhere in the structure, changes its shape but neither
its leaves nor their order, and so not its text. In this way any shape can be reached: every
structure of pairs can be brought into a normal form, a chain in which the first item of each pair
is a leaf, and structures with the same leaves have the same chain.

The pairs are made anew, so re-association is up to the identities of lists.

## Main definitions

* `Value.Reassociated`: values that differ in the association of pairs only.
* `Value.OfPairs`: structures of pairs, in which every list is a pair.
* `Value.chain`: the normal form.

## Main results

* `Value.Reassociated.display_eq`: re-association does not change the text.
* `Value.reassociated_iff`: structures of pairs are re-associations of each other if and only if
  they have the same leaves.
* `Primitive.result_of_reassociated`: neither `print` nor `+` tells them apart.
-/

namespace OutlineLisp

namespace Value

variable {a a' b b' v w : Value}

/-- Whether two values differ in the association of pairs only. Lists are made anew on the way, and
so their identities may differ, too. -/
inductive Reassociated : Value → Value → Prop where
  | refl (v : Value) : Reassociated v v
  | symm {v w : Value} (h : Reassociated v w) : Reassociated w v
  | trans {u v w : Value} (h : Reassociated u v) (h' : Reassociated v w) : Reassociated u w
  /-- Of three values the first two are paired first, instead of the last two. -/
  | rotate (i j k l : ℕ) (a b c : Value) :
    Reassociated (list i [a, list j [b, c]]) (list k [list l [a, b], c])
  /-- One item of a list, which may have any number of them, is re-associated. -/
  | item {v w : Value} (i j : ℕ) (before after : List Value) (h : Reassociated v w) :
    Reassociated (list i (before ++ v :: after)) (list j (before ++ w :: after))

namespace Reassociated

/-- A pair is re-associated if its items are. -/
theorem pair (i j : ℕ) (ha : Reassociated a a') (hb : Reassociated b b') :
    Reassociated (list i [a, b]) (list j [a', b']) :=
  (item i j [] [b] ha).trans (item j j [a'] [] hb)

/-- **Re-association does not change the text** of a value. -/
theorem display_eq (h : Reassociated v w) : v.display = w.display := by
  induction h with
  | refl => rfl
  | symm _ ih => exact ih.symm
  | trans _ _ ih ih' => exact ih.trans ih'
  | rotate i j k l a b c => simp only [display, displayItems, String.append_assoc]
  | item i j before after _ ih => simp only [display_list, List.map_append, List.map_cons, ih]

/-- Neither does it change the leaves of a value. -/
theorem fringe_eq (h : Reassociated v w) : v.fringe = w.fringe := by
  induction h with
  | refl => rfl
  | symm _ ih => exact ih.symm
  | trans _ _ ih ih' => exact ih.trans ih'
  | rotate i j k l a b c => simp only [fringe_pair, List.append_assoc]
  | item i j before after _ ih =>
    simp only [fringe_list, List.flatMap_append, List.flatMap_cons, ih]

/-- Only lists are re-associated, and they are lists again. -/
theorem eq_or_lists (h : Reassociated v w) :
    v = w ∨ ∃ i us j vs, v = list i us ∧ w = list j vs := by
  induction h with
  | refl => exact .inl rfl
  | symm _ ih =>
    rcases ih with rfl | ⟨i, us, j, vs, rfl, rfl⟩
    · exact .inl rfl
    · exact .inr ⟨j, vs, i, us, rfl, rfl⟩
  | trans _ _ ih ih' =>
    rcases ih with rfl | ⟨i, us, j, vs, rfl, rfl⟩
    · exact ih'
    · rcases ih' with rfl | ⟨_, _, k, ws, -, rfl⟩
      · exact .inr ⟨i, us, j, vs, rfl, rfl⟩
      · exact .inr ⟨i, us, k, ws, rfl, rfl⟩
  | rotate => exact .inr ⟨_, _, _, _, rfl, rfl⟩
  | item => exact .inr ⟨_, _, _, _, rfl, rfl⟩

end Reassociated

/-! ### Structures of pairs -/

/-- Whether every list in a value is a pair, at any depth. -/
inductive OfPairs : Value → Prop where
  | leaf {v : Value} (h : v.type ≠ .pair) : OfPairs v
  | pair {a b : Value} (i : ℕ) (ha : OfPairs a) (hb : OfPairs b) : OfPairs (list i [a, b])

theorem OfPairs.filled (h : v.OfPairs) : v.Filled := by
  induction h with
  | leaf hv =>
    intro i hholds
    cases hholds <;> exact hv rfl
  | pair i _ _ iha ihb =>
    have hitems := List.forall_mem_cons.2 ⟨iha, List.forall_mem_singleton.2 ihb⟩
    exact filled_list_iff.2 ⟨List.cons_ne_nil _ _, hitems⟩

/-- Primitives make nothing but pairs. -/
theorem inherited_ofPairs (fresh : ℕ) : Inherited fresh OfPairs where
  number _ := .leaf nofun
  text _ := .leaf nofun
  bool _ := .leaf nofun
  nil := .leaf nofun
  item h := by
    cases h with
    | leaf hv => exact absurd rfl hv
    | pair _ ha hb => exact List.forall_mem_cons.2 ⟨ha, List.forall_mem_singleton.2 hb⟩
  pair := .pair fresh

/-! ### Chains -/

/-- Some values and one last, each paired with all that come after it. -/
def chain (vs : List Value) (last : Value) : Value := vs.foldr (fun v rest => list 0 [v, rest]) last

theorem chain_append (us vs : List Value) (last : Value) :
    chain (us ++ vs) last = chain us (chain vs last) := List.foldr_append

/-- What is paired with a structure can be chained to its leaves. -/
theorem reassociated_chain (h : v.OfPairs) (i : ℕ) (rest : Value) :
    Reassociated (list i [v, rest]) (chain v.fringe rest) := by
  -- What follows the first item of a pair is its second item with the rest, so the rest changes.
  induction h generalizing i rest with
  | @leaf v hv =>
    rw [fringe_eq_singleton hv]
    exact .pair i 0 (.refl v) (.refl rest)
  | @pair a b j _ _ iha ihb =>
    have hrotate : Reassociated (list i [list j [a, b], rest]) (list 0 [a, list 0 [b, rest]]) :=
      (Reassociated.rotate 0 0 i j a b rest).symm
    have hb : Reassociated (list 0 [a, list 0 [b, rest]]) (list 0 [a, chain b.fringe rest]) :=
      .pair 0 0 (.refl a) (ihb 0 rest)
    have ha : Reassociated (list 0 [a, chain b.fringe rest])
        (chain a.fringe (chain b.fringe rest)) := iha 0 (chain b.fringe rest)
    rw [fringe_pair, chain_append]
    exact (hrotate.trans hb).trans ha

/-- **Every structure of pairs** can be brought into the form of a chain. -/
theorem exists_reassociated_chain (h : v.OfPairs) :
    ∃ before last, v.fringe = before ++ [last] ∧ v.Reassociated (chain before last) := by
  induction h with
  | @leaf v hv => exact ⟨[], v, fringe_eq_singleton hv, .refl v⟩
  | @pair a b i ha _ _ ihb =>
    obtain ⟨before, last, hfringe, hchain⟩ := ihb
    refine ⟨a.fringe ++ before, last, ?_, ?_⟩
    · rw [fringe_pair, hfringe, List.append_assoc]
    · rw [chain_append]
      exact (Reassociated.pair i i (.refl a) hchain).trans (reassociated_chain ha i _)

/-- **Structures of pairs** are re-associations of each other if and only if they have the same
leaves in the same order. -/
theorem reassociated_iff (hv : v.OfPairs) (hw : w.OfPairs) :
    v.Reassociated w ↔ v.fringe = w.fringe := by
  refine ⟨Reassociated.fringe_eq, fun h => ?_⟩
  obtain ⟨before, last, hfringe, hchain⟩ := exists_reassociated_chain hv
  obtain ⟨before', last', hfringe', hchain'⟩ := exists_reassociated_chain hw
  have heq : before ++ [last] = before' ++ [last'] := hfringe.symm.trans (h.trans hfringe')
  obtain ⟨rfl, hlast⟩ := List.append_inj' heq rfl
  obtain rfl : last = last' := List.singleton_inj.1 hlast
  exact hchain.trans hchain'.symm

end Value

/-! ### Primitives -/

namespace Primitive

open Value (Reassociated)

variable {a a' b b' : Value} {args args' : List Value}

theorem lineOf_of_reassociated (h : List.Forall₂ Reassociated args args') :
    lineOf args = lineOf args' := by
  have hmap : args.map Value.display = args'.map Value.display := by
    induction h with
    | nil => rfl
    | cons h _ ih => rw [List.map_cons, List.map_cons, h.display_eq, ih]
  rw [lineOf, lineOf, hmap]

theorem sum_of_reassociated_left (h : a.Reassociated a') (b : Value) : sum a b = sum a' b := by
  have hdisplay : a.display = a'.display := h.display_eq
  obtain rfl | ⟨i, us, j, vs, rfl, rfl⟩ := h.eq_or_lists
  · rfl
  · cases b with
    | text t => exact congrArg (fun s => Except.ok (Value.text (s ++ t))) hdisplay
    | _ => rfl

theorem sum_of_reassociated_right (a : Value) (h : b.Reassociated b') : sum a b = sum a b' := by
  have hdisplay : b.display = b'.display := h.display_eq
  obtain rfl | ⟨i, us, j, vs, rfl, rfl⟩ := h.eq_or_lists
  · rfl
  · cases a with
    | text s => exact congrArg (fun t => Except.ok (Value.text (s ++ t))) hdisplay
    | _ => rfl

theorem first_of_reassociated (h : List.Forall₂ Reassociated args args') :
    (Value.first args).Reassociated (Value.first args') := by
  cases h with
  | nil => exact .refl _
  | cons h _ => exact h

theorem second_of_reassociated (h : List.Forall₂ Reassociated args args') :
    (Value.second args).Reassociated (Value.second args') := by
  cases h with
  | nil => exact .refl _
  | cons _ h => exact first_of_reassociated h

/-- The primitives that ask for the texts of their operands. -/
def textual : List Primitive := [print, add]

variable {p : Primitive}

/-- **Primitives that ask for texts** do not tell re-associated operands apart: they answer the same
text, or the same fault. -/
theorem result_of_reassociated (hp : p ∈ textual) (fresh : ℕ)
    (h : List.Forall₂ Reassociated args args') : p.result fresh args = p.result fresh args' := by
  simp only [textual, List.mem_cons, List.not_mem_nil, or_false] at hp
  rcases hp with rfl | rfl
  · exact congrArg (fun line => Except.ok (Value.text line)) (lineOf_of_reassociated h)
  · calc
      sum (Value.first args) (Value.second args)
        = sum (Value.first args') (Value.second args) :=
          sum_of_reassociated_left (first_of_reassociated h) _
      _ = sum (Value.first args') (Value.second args') :=
          sum_of_reassociated_right _ (second_of_reassociated h)

/-- They say the same, too. -/
theorem said?_of_reassociated (p : Primitive) (h : List.Forall₂ Reassociated args args') :
    p.said? args = p.said? args' := by
  cases p with
  | print => exact congrArg some (lineOf_of_reassociated h)
  | _ => rfl

end Primitive

end OutlineLisp
