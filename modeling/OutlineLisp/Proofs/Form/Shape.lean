import OutlineLisp.Proofs.Form.Traversal

/-!
# The shape of forms that are made

Whether a node denotes a form, and which fault it denotes otherwise, is read off a traversal of the
tree. The form itself is nested no deeper than the tree may be. The words `if` and `lambda` call
nothing in it, since every node with children that has one of them as its value has become a
condition or a function.

## Main definitions

* `Form.inner`, `Form.Inside`: the forms inside a form, with how deep they lie.
* `Form.WellMade`: nothing lies too deep in a form, and it contains no call of a keyword.
* `Form.FollowsTraversal`: what becomes of a node.

## Main results

* `Form.wellMade_ofNodesAt`: forms are well made, as deep as their nodes may still be.
* `Form.followsTraversal_ofNode`: what becomes of every node.
-/

namespace OutlineLisp

namespace Form

/-- The forms directly inside a form. -/
def inner : Form → List Form
  | cond test consequent alternative => test :: consequent :: alternative.toList
  | lambda _ body => [body]
  | call operator operands => operator :: operands
  | _ => []

/-- Whether a form lies inside another, and how many levels deep. A form itself is at level 0. -/
inductive Inside (g : Form) : Nat → Form → Prop where
  | self : Inside g 0 g
  | inner {level : Nat} {f h : Form} (hf : h ∈ f.inner) (hg : Inside g level h) :
    Inside g (level + 1) f

/-- Whether a form is no call of a keyword. -/
def CallsNoKeyword (f : Form) : Prop :=
  ∀ operator operands, f = call operator operands →
    operator ≠ symbol "if" ∧ operator ≠ symbol "lambda"

/-- Whether nothing lies deeper in a form than some number of levels, and no form in it is a call of
a keyword. -/
def WellMade (levels : Nat) (f : Form) : Prop :=
  ∀ g level, Inside g level f → level ≤ levels ∧ g.CallsNoKeyword

namespace WellMade

variable {f : Form} {levels : Nat}

/-- A form with nothing inside has no depth. -/
theorem of_inner_eq_nil (hf : f.inner = []) (levels : Nat) : f.WellMade levels := by
  intro g level h
  cases h with
  | self =>
    refine ⟨Nat.zero_le _, ?_⟩
    rintro operator operands rfl
    cases hf
  | inner hmem _ =>
    rw [hf] at hmem
    cases hmem

/-- A form is one level deeper than what is directly inside. -/
theorem of_inner (hinner : ∀ h ∈ f.inner, h.WellMade levels) (hcalls : f.CallsNoKeyword) :
    f.WellMade (levels + 1) := by
  intro g level h
  cases h with
  | self => exact ⟨Nat.zero_le _, hcalls⟩
  | inner hmem hg =>
    obtain ⟨hle, hkeyword⟩ := hinner _ hmem g _ hg
    exact ⟨Nat.succ_le_succ hle, hkeyword⟩

theorem nil (levels : Nat) : Form.nil.WellMade levels := of_inner_eq_nil rfl levels

theorem number (x : Float) (levels : Nat) : (Form.number x).WellMade levels :=
  of_inner_eq_nil rfl levels

theorem symbol (name : String) (levels : Nat) : (Form.symbol name).WellMade levels :=
  of_inner_eq_nil rfl levels

end WellMade

/-! ### One node -/

variable {n : Node} {form : Form}

theorem wellMade_ofLeaf (h : ofLeaf n = .ok form) (levels : Nat) : form.WellMade levels := by
  rw [ofLeaf] at h
  split at h <;> cases h
  all_goals exact .of_inner_eq_nil rfl levels

/-- The operand in some place is well made, also if it is missing. -/
theorem wellMade_getD {levels : Nat} {operands : List Form}
    (h : ∀ operand ∈ operands, operand.WellMade levels) (i : Nat) :
    (operands.getD i nil).WellMade levels := by
  rw [List.getD_eq_getElem?_getD]
  cases hi : operands[i]? with
  | none => exact .nil levels
  | some operand => exact h operand (List.mem_of_getElem? hi)

theorem wellMade_of_branches {levels : Nat} {operands : List Form}
    (hoperands : ∀ operand ∈ operands, operand.WellMade levels)
    (h : Branches n operands form) : form.WellMade (levels + 1) := by
  cases h with
  | number _ =>
    refine .of_inner (List.forall_mem_cons.2 ⟨.number _ _, hoperands⟩) ?_
    rintro _ _ ⟨⟩
    exact ⟨nofun, nofun⟩
  | cond _ =>
    refine .of_inner (List.forall_mem_cons.2 ⟨wellMade_getD hoperands 0,
      List.forall_mem_cons.2 ⟨wellMade_getD hoperands 1, fun f hf => ?_⟩⟩) nofun
    exact hoperands f (List.mem_of_getElem? (Option.mem_toList.1 hf))
  | lambda _ _ _ =>
    refine .of_inner (fun f hf => ?_) nofun
    obtain rfl := List.mem_singleton.1 hf
    exact wellMade_getD hoperands 1
  | @call name _ hif hlambda =>
    refine .of_inner (List.forall_mem_cons.2 ⟨.symbol name _, hoperands⟩) ?_
    rintro _ _ ⟨⟩
    exact ⟨fun h => hif (symbol.inj h), fun h => hlambda (symbol.inj h)⟩

/-! ### Trees -/

theorem wellMade_ofNodeAt_of_children {depth : Nat} (h : ofNodeAt depth n = .ok form)
    (hchildren : ∀ operands, ofNodesAt (depth + 1) n.children = .ok operands →
      ∀ operand ∈ operands, operand.WellMade (maxNesting - (depth + 1))) :
    form.WellMade (maxNesting - depth) := by
  obtain ⟨-, ⟨-, hleaf⟩ | ⟨hbranch, operands, hoperands, hform⟩⟩ := ofNodeAt_eq_ok_iff.1 h
  · exact wellMade_ofLeaf hleaf _
  · -- There is a child, which is not too deep either.
    have hdepth : depth + 1 ≤ maxNesting := by
      obtain ⟨first, rest, hcons⟩ := List.exists_cons_of_ne_nil hbranch
      rw [hcons] at hoperands
      obtain ⟨_, _, hfirst, -⟩ := ofNodesAt_cons_eq_ok_iff.1 hoperands
      exact (ofNodeAt_eq_ok_iff.1 hfirst).1
    have hlevels : maxNesting - depth = maxNesting - (depth + 1) + 1 := by omega
    rw [hlevels]
    exact wellMade_of_branches (hchildren operands hoperands) (branches_of_ofBranch hform)

/-- Forms are well made, as deep as their nodes may still be. -/
theorem wellMade_ofNodesAt (depth : Nat) (ns : List Node) {forms : List Form}
    (h : ofNodesAt depth ns = .ok forms) : ∀ f ∈ forms, f.WellMade (maxNesting - depth) := by
  match ns with
  | [] =>
    cases h
    exact List.forall_mem_nil _
  | ⟨kind, value, children, indent, span⟩ :: ns =>
    obtain ⟨form, rest, hnode, hns, rfl⟩ := ofNodesAt_cons_eq_ok_iff.1 h
    refine List.forall_mem_cons.2 ⟨?_, wellMade_ofNodesAt depth ns hns⟩
    exact wellMade_ofNodeAt_of_children hnode fun operands hoperands =>
      wellMade_ofNodesAt (depth + 1) children hoperands

theorem wellMade_ofNode (h : ofNode n = .ok form) : form.WellMade maxNesting :=
  wellMade_ofNodeAt_of_children h fun _ hoperands => wellMade_ofNodesAt 1 n.children hoperands

/-! ### What becomes of a node -/

/-- What becomes of a node, in terms of a traversal of its tree. -/
structure FollowsTraversal (n : Node) (r : Except Fault Form) : Prop where
  /-- There is a form if no node is too deep, all have a value, and the leaves are literals and
  names. -/
  ok_iff : (∃ form, r = .ok form) ↔ n.Nestable ∧ ∀ m ∈ n.walk, m.Meaningful
  /-- Otherwise the fault is the first offence. -/
  error_iff : ∀ fault, r = .error fault ↔ n.firstOffence? = some fault
  /-- A function whose operands have become forms has parameters. -/
  parameters : ∀ m ∈ n.walk, ∀ depth operands, ofNodesAt depth m.children = .ok operands →
    ∀ first, m.children.head? = some first → ∃ ps, Params.ofLambda first = .ok ps
  /-- Nothing lies too deep in the form. -/
  nested : ∀ form, r = .ok form → ∀ g level, Inside g level form → level ≤ maxNesting
  /-- It contains no call of a keyword. -/
  calls : ∀ form, r = .ok form → ∀ g level, Inside g level form → g.CallsNoKeyword

/-- **What becomes of a node.** It denotes a form exactly if nothing in it is too deep and every
node says enough; that form is nested no deeper than allowed and calls no keyword. Otherwise it
denotes the fault of the first offence that a traversal meets. -/
theorem followsTraversal_ofNode (n : Node) : FollowsTraversal n (ofNode n) where
  ok_iff := exists_ofNode_iff
  error_iff _ := ofNode_eq_error_iff
  parameters _ _ _ _ hoperands _ hfirst := Params.exists_ofLambda_of_operands hoperands hfirst
  nested _ h g level hg := (wellMade_ofNode h g level hg).1
  calls _ h g level hg := (wellMade_ofNode h g level hg).2

/-- A node without a value offends after its children, and so after a child that is no name. -/
example : Fault.raised? (ofNode
    { kind := .expression
      children := [{ kind := .symbol, value := some (.text "x") }, { kind := .definition }] })
    = some (.malformed .definition none) := by
  decide

end Form

end OutlineLisp
