import OutlineLisp.Proofs.Form.Nesting

/-!
# What forms are made of

A form is made of the values of a tree, of their places, and of the kinds of the leaves. Where the
nodes came from has no part in it, the kind of a node with children has none, and the two kinds that
stand for names are not told apart. So trees that match in this sense denote the same form.

Where they denote none, it is for the same reason. Only a fault about a malformed node may name the
kind of that node, which is then the one thing in which the two faults may differ.

## Main definitions

* `Node.Matches`: trees with the same values in the same places and leaves of like kinds.
* `Fault.Resembles`: outcomes that are equal but perhaps for the kind of a malformed node.

## Main results

* `Form.resembles_ofNode`: matching trees denote the same form.
* `Lambda.resembles_ofDefinition`: definitions with matching trees denote the same function.
-/

namespace OutlineLisp

/-- Whether two kinds of leaves are alike: the same, or both standing for a name. -/
def NodeKind.Like (k l : NodeKind) : Prop := k = l ∨ k.isName = true ∧ l.isName = true

namespace Node

mutual

/-- Whether two trees have the same values in the same places, and leaves of like kinds. -/
def Matches : Node → Node → Prop
  | ⟨kind, value, children, _, _⟩, n =>
    value = n.value ∧ (children = [] → kind.Like n.kind) ∧ MatchesAll children n.children

/-- Whether trees match one by one. -/
def MatchesAll : List Node → List Node → Prop
  | [], ns => ns = []
  | m :: ms, ns => ∃ n rest, ns = n :: rest ∧ Matches m n ∧ MatchesAll ms rest

end

theorem matches_iff {m n : Node} :
    m.Matches n ↔ m.value = n.value ∧ (m.children = [] → m.kind.Like n.kind) ∧
      MatchesAll m.children n.children := by
  cases m
  rw [Matches]

theorem matchesAll_iff {ms ns : List Node} : MatchesAll ms ns ↔ List.Forall₂ Matches ms ns := by
  induction ms generalizing ns with
  | nil => rw [MatchesAll, List.forall₂_nil_left_iff]
  | cons m ms ih =>
    rw [MatchesAll, List.forall₂_cons_left_iff]
    constructor
    · rintro ⟨n, rest, rfl, hn, hrest⟩
      exact ⟨n, rest, hn, ih.1 hrest, rfl⟩
    · rintro ⟨n, rest, hn, hrest, rfl⟩
      exact ⟨n, rest, rfl, hn, ih.2 hrest⟩

end Node

/-! ### Outcomes -/

/-- Whether two outcomes are equal but perhaps for the kind of a malformed node. -/
inductive Fault.Resembles {α : Type} : Except Fault α → Except Fault α → Prop where
  | same (r : Except Fault α) : Resembles r r
  | malformed (kind kind' : NodeKind) (value : Option Atom) :
    Resembles (.error (.malformed kind value)) (.error (.malformed kind' value))

namespace Fault.Resembles

variable {α β : Type} {r r' : Except Fault α}

theorem map (h : Resembles r r') (f : α → β) : Resembles (r.map f) (r'.map f) := by
  cases h with
  | same => exact .same _
  | malformed kind kind' value => exact .malformed kind kind' value

/-- An outcome without a malformed node is the same as whatever it resembles. -/
theorem eq (h : Resembles r r') (hr : ∀ kind value, r ≠ .error (.malformed kind value)) :
    r = r' := by
  cases h with
  | same => rfl
  | malformed kind kind' value => exact absurd rfl (hr kind value)

end Fault.Resembles

open Fault (Resembles)

/-! ### One node -/

namespace NodeKind.Like

variable {k l : NodeKind}

theorem isName_eq (h : k.Like l) : k.isName = l.isName := by
  rcases h with rfl | ⟨hk, hl⟩
  · rfl
  · rw [hk, hl]

theorem literal_iff (h : k.Like l) : k = .literal ↔ l = .literal := by
  rcases h with rfl | ⟨hk, hl⟩
  · exact Iff.rfl
  · constructor
    · rintro rfl
      cases hk
    · rintro rfl
      cases hl

end NodeKind.Like

namespace Node.Matches

variable {m n : Node}

theorem value_eq (h : m.Matches n) : m.value = n.value := (matches_iff.1 h).1

theorem like (h : m.Matches n) (hleaf : m.children = []) : m.kind.Like n.kind :=
  (matches_iff.1 h).2.1 hleaf

theorem children (h : m.Matches n) : List.Forall₂ Matches m.children n.children :=
  matchesAll_iff.1 (matches_iff.1 h).2.2

theorem children_eq_nil_iff (h : m.Matches n) : m.children = [] ↔ n.children = [] := by
  rw [← List.length_eq_zero_iff, ← List.length_eq_zero_iff, h.children.length_eq]

theorem isLeaf_eq (h : m.Matches n) : m.isLeaf = n.isLeaf := by
  rw [Bool.eq_iff_iff, isLeaf, isLeaf, List.isEmpty_iff, List.isEmpty_iff, h.children_eq_nil_iff]

theorem resembles_malformed {α : Type} (h : m.Matches n) :
    Resembles (.error m.malformed : Except Fault α) (.error n.malformed) := by
  rw [malformed, malformed, h.value_eq]
  exact .malformed _ _ _

end Node.Matches

namespace Params

variable {m n : Node}

theorem slotOf_eq (h : m.Matches n) : slotOf m = slotOf n := by
  rw [slotOf, slotOf, ← h.isLeaf_eq, ← h.value_eq]
  by_cases hleaf : m.children = []
  · rw [(h.like hleaf).isName_eq]
  · have hbranch : m.isLeaf = false := List.isEmpty_eq_false_iff.2 hleaf
    rw [hbranch, Bool.and_false, Bool.and_false]

theorem groupSlots_eq (h : m.Matches n) : groupSlots m = groupSlots n := by
  have hchildren := h.children
  rw [groupSlots, groupSlots]
  generalize m.children = ms, n.children = ns at hchildren
  induction hchildren with
  | nil => rfl
  | cons hchild _ ih => rw [List.map_cons, List.map_cons, slotOf_eq hchild, ih]

theorem resembles_ofLeaf (h : m.Matches n) (hleaf : m.children = []) :
    Resembles (ofLeaf m) (ofLeaf n) := by
  have hkind := h.like hleaf
  rw [ofLeaf, ofLeaf, ← hkind.isName_eq, ← h.value_eq]
  by_cases hliteral : m.kind = .literal
  · rw [if_pos hliteral, if_pos (hkind.literal_iff.1 hliteral)]
    exact .same _
  · rw [if_neg hliteral, if_neg (mt hkind.literal_iff.2 hliteral)]
    split
    · split
      · exact .same _
      · exact h.resembles_malformed
    · exact h.resembles_malformed

theorem resembles_ofLambda (h : m.Matches n) : Resembles (ofLambda m) (ofLambda n) := by
  rw [ofLambda, ofLambda, ← h.isLeaf_eq, groupSlots_eq h]
  split
  · next hleaf => exact resembles_ofLeaf h (List.isEmpty_iff.1 hleaf)
  · exact .same _

/-- Matching nodes give the same parameters, at the head of a definition as in a function. -/
theorem resembles_ofDefinition (h : m.Matches n) : Resembles (ofDefinition m) (ofDefinition n) := by
  rw [ofDefinition, ofDefinition, ← h.value_eq]
  split
  · rw [← h.isLeaf_eq, groupSlots_eq h]
    split
    · next hleaf => exact resembles_ofLeaf h (List.isEmpty_iff.1 hleaf)
    · exact .same _
  · exact resembles_ofLambda h

end Params

namespace Form

variable {m n : Node}

theorem ofLeaf_of_isName (h : n.kind.isName = true) :
    ofLeaf n = match n.value with
      | some name => .ok (symbol name.display)
      | none => .error n.malformed := by
  obtain ⟨kind, value, children, indent, span⟩ := n
  cases kind with
  | symbol | expression => cases value <;> rfl
  | program | definition | literal => cases h

theorem resembles_ofLeaf (h : m.Matches n) (hleaf : m.children = []) :
    Resembles (ofLeaf m) (ofLeaf n) := by
  rcases h.like hleaf with hkind | ⟨hm, hn⟩
  · rw [ofLeaf, ofLeaf, ← hkind, ← h.value_eq]
    split
    · exact .same _
    · exact .same _
    · exact .same _
    · exact .same _
    · exact h.resembles_malformed
  · rw [ofLeaf_of_isName hm, ofLeaf_of_isName hn, ← h.value_eq]
    split
    · exact .same _
    · exact h.resembles_malformed

theorem resembles_ofBranch (h : m.Matches n) (operands : List Form) :
    Resembles (ofBranch m operands) (ofBranch n operands) := by
  have hchildren := h.children
  rw [ofBranch, ofBranch, ← h.value_eq]
  split
  · exact h.resembles_malformed
  · exact .same _
  · split
    · exact .same _
    · split
      · generalize m.children = ms, n.children = ns at hchildren
        cases hchildren with
        | nil => exact h.resembles_malformed
        | cons hfirst _ => exact (Params.resembles_ofLambda hfirst).map _
      · exact .same _

/-! ### Trees -/

/-- Matching nodes denote the same form if their children do. -/
theorem resembles_ofNodeAt_of_children {depth : Nat} (h : m.Matches n)
    (hchildren : Resembles (ofNodesAt (depth + 1) m.children) (ofNodesAt (depth + 1) n.children)) :
    Resembles (ofNodeAt depth m) (ofNodeAt depth n) := by
  have hleaf : m.children.isEmpty = n.children.isEmpty := h.isLeaf_eq
  rw [ofNodeAt_eq, ofNodeAt_eq, ← hleaf]
  split
  · exact .same _
  · split
    · next hempty => exact resembles_ofLeaf h (List.isEmpty_iff.1 hempty)
    · generalize ofNodesAt (depth + 1) m.children = r, ofNodesAt (depth + 1) n.children = r'
        at hchildren
      cases hchildren with
      | malformed kind kind' value => exact .malformed kind kind' value
      | same r =>
        cases r with
        | error fault => exact .same _
        | ok operands => exact resembles_ofBranch h operands

theorem resembles_ofNodesAt (depth : Nat) (ms ns : List Node) (h : Node.MatchesAll ms ns) :
    Resembles (ofNodesAt depth ms) (ofNodesAt depth ns) := by
  match ms with
  | [] =>
    rw [Node.MatchesAll] at h
    rw [h]
    exact .same _
  | ⟨kind, value, children, indent, span⟩ :: ms =>
    rw [Node.MatchesAll] at h
    obtain ⟨n, rest, rfl, hn, hrest⟩ := h
    have hchildren :=
      resembles_ofNodesAt (depth + 1) children n.children (Node.matches_iff.1 hn).2.2
    have hnode := resembles_ofNodeAt_of_children hn hchildren
    have hns := resembles_ofNodesAt depth ms rest hrest
    rw [ofNodesAt, ofNodesAt]
    generalize ofNodeAt depth _ = r, ofNodeAt depth n = r' at hnode
    generalize ofNodesAt depth ms = rs, ofNodesAt depth rest = rs' at hns
    cases hnode with
    | malformed kind kind' value => exact .malformed kind kind' value
    | same r =>
      cases r with
      | error fault => exact .same _
      | ok form =>
        cases hns with
        | malformed kind kind' value => exact .malformed kind kind' value
        | same rs => exact .same _

/-- **Matching trees denote the same form.** -/
theorem resembles_ofNode (h : m.Matches n) : Resembles (ofNode m) (ofNode n) :=
  resembles_ofNodeAt_of_children h (resembles_ofNodesAt 1 _ _ (Node.matches_iff.1 h).2.2)

end Form

namespace Lambda

/-- **Definitions with matching trees denote the same function.** Nothing else of them matters. -/
theorem resembles_ofDefinition {d e : Node} (h : List.Forall₂ Node.Matches d.children e.children) :
    Resembles (ofDefinition d) (ofDefinition e) := by
  rw [ofDefinition, ofDefinition]
  generalize d.children = ms, e.children = ns at h
  cases h with
  | nil => exact .same _
  | @cons first first' _ _ hfirst hrest =>
    cases hrest with
    | nil => exact ((Form.resembles_ofNode hfirst).map _).map _
    | cons hbody _ =>
      have hparams := Params.resembles_ofDefinition hfirst
      dsimp only
      generalize Params.ofDefinition first = r, Params.ofDefinition first' = r' at hparams
      cases hparams with
      | malformed kind kind' value => exact .malformed kind kind' value
      | same r =>
        cases r with
        | error fault => exact .same _
        | ok params => exact ((Form.resembles_ofNode hbody).map _).map _

end Lambda

end OutlineLisp
