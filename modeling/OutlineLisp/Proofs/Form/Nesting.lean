import OutlineLisp.Proofs.Form.Traversal

/-!
# Nodes that denote forms

A node denotes no form for one of two reasons: something in it says too little, or something in it
is nested too deep. Where every node says enough, only the depth is left, and then the outcome is
known without making the form: there is one if and only if no node is deeper than a form may be
nested, and otherwise the fault is that of the nesting limit.

Every node that is counted is counted alike. The parameters of a function and the operands that a
condition drops are made into forms before they are dropped, so they must not be too deep either.

## Main definitions

* `Node.body?`: the child of a definition that its body is made of.
* `Form.Settles`: an outcome that a condition on depths decides.

## Main results

* `Form.settles_ofNode`: which nodes denote forms.
* `Lambda.settles_ofDefinition`: which definitions denote functions.
-/

namespace OutlineLisp

namespace Node

/-- The child of a definition that its body is made of: the only one, or else the second. -/
def body? (definition : Node) : Option Node :=
  match definition.children with
  | [] => none
  | [body] => some body
  | _ :: body :: _ => some body

end Node

namespace Form

/-! ### Outcomes that depths decide -/

/-- Whether something is made if a condition holds, and otherwise the nesting limit is passed. -/
inductive Settles {α : Type} (fits : Prop) : Except Fault α → Prop where
  | made (h : fits) (a : α) : Settles fits (.ok a)
  | tooDeep (h : ¬fits) : Settles fits (.error (.exhausted (.nesting maxNesting)))

namespace Settles

variable {α β : Type} {fits : Prop} {r : Except Fault α}

theorem map (h : Settles fits r) (f : α → β) : Settles fits (r.map f) := by
  cases h with
  | made h a => exact .made h (f a)
  | tooDeep h => exact .tooDeep h

theorem ok_iff (h : Settles fits r) : (∃ a, r = .ok a) ↔ fits := by
  cases h with
  | made h a => exact ⟨fun _ => h, fun _ => ⟨a, rfl⟩⟩
  | tooDeep h => exact ⟨by rintro ⟨_, ⟨⟩⟩, fun hfits => absurd hfits h⟩

theorem eq_error (h : Settles fits r) (hnot : ¬fits) :
    r = .error (.exhausted (.nesting maxNesting)) := by
  cases h with
  | made h => exact absurd h hnot
  | tooDeep => rfl

end Settles

/-- **Which nodes denote forms.** If everything in a node says enough, the node denotes a form
exactly if nothing in it is nested too deep. -/
theorem settles_ofNode {n : Node} (h : ∀ m ∈ n.walk, m.Meaningful) :
    Settles n.Nestable (ofNode n) := by
  by_cases hnestable : n.Nestable
  · obtain ⟨form, hform⟩ := exists_ofNode_iff.2 ⟨hnestable, h⟩
    rw [hform]
    exact .made hnestable form
  · cases hn : ofNode n with
    | ok form => exact absurd (exists_ofNode_iff.1 ⟨form, hn⟩).1 hnestable
    | error fault =>
      obtain rfl := Node.eq_nesting_of_firstOffence? h (ofNode_eq_error_iff.1 hn)
      exact .tooDeep hnestable

end Form

namespace Lambda

/-- **Which definitions denote functions.** If everything below a definition says enough, only the
depth of its body matters. -/
theorem settles_ofDefinition {definition body : Node}
    (h : ∀ n ∈ Node.walkAll definition.children, n.Meaningful)
    (hbody : definition.body? = some body) :
    Form.Settles body.Nestable (ofDefinition definition) := by
  obtain ⟨kind, value, children, indent, span⟩ := definition
  rcases children with _ | ⟨first, _ | ⟨second, rest⟩⟩
  · cases hbody
  · obtain rfl : first = body := Option.some.inj hbody
    rw [Node.walkAll, Node.walkAll_nil, List.append_nil] at h
    exact ((Form.settles_ofNode h).map _).map _
  · obtain rfl : second = body := Option.some.inj hbody
    rw [Node.walkAll_cons, List.forall_mem_cons, List.forall_mem_append, Node.walkAll,
      List.forall_mem_append] at h
    obtain ⟨ps, hps⟩ := Params.exists_ofDefinition h.1
    simp only [ofDefinition, hps]
    exact ((Form.settles_ofNode h.2.2.1).map _).map _

end Lambda

end OutlineLisp
