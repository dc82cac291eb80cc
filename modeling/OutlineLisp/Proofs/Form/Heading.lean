import OutlineLisp.Machine.Basic
import OutlineLisp.Proofs.Form.Traversal

/-!
# Headings and functions

A function is written as a definition or as an item with the value `lambda`. Both give the
parameters first and then the body, and whatever such an item denotes, a definition with the same
two children denotes, too. One thing is different: at the head of a definition a group with a text
value has only a label there, whereas in an item this text has a slot, which is never bound. So the
definition is called with one argument less.

## Main definitions

* `Node.Labelled`: a group of parameters with a label.
* `Lambda.AgreesWith`: what a definition has in common with an item that denotes a function.

## Main results

* `Form.ofNodeAt_mono`: a node denotes the same form higher up.
* `Params.ofDefinition_of_labelled`, `Params.ofDefinition_of_not_labelled`: the difference.
* `Lambda.agreesWith_ofDefinition`: definitions agree with items.
-/

namespace OutlineLisp

/-- Whether a node is a group with a text value, which is a label at the head of a definition. -/
def Node.Labelled (n : Node) : Prop := n.children ≠ [] ∧ ∃ label, n.text? = some label

/-! ### Forms higher up -/

namespace Form

theorem ofNodeAt_mono_of_children {depth depth' : Nat} {n : Node} {form : Form}
    (h : ofNodeAt depth n = .ok form) (hle : depth' ≤ depth)
    (hchildren : ∀ operands, ofNodesAt (depth + 1) n.children = .ok operands →
      ofNodesAt (depth' + 1) n.children = .ok operands) : ofNodeAt depth' n = .ok form := by
  obtain ⟨hdepth, hform⟩ := ofNodeAt_eq_ok_iff.1 h
  refine ofNodeAt_eq_ok_iff.2 ⟨hle.trans hdepth, hform.imp_right ?_⟩
  rintro ⟨hbranch, operands, hoperands, hform⟩
  exact ⟨hbranch, operands, hchildren operands hoperands, hform⟩

theorem ofNodesAt_mono {depth depth' : Nat} (hle : depth' ≤ depth) (ns : List Node)
    {forms : List Form} (h : ofNodesAt depth ns = .ok forms) : ofNodesAt depth' ns = .ok forms := by
  match ns with
  | [] => exact h
  | ⟨kind, value, children, indent, span⟩ :: ns =>
    obtain ⟨form, rest, hnode, hns, rfl⟩ := ofNodesAt_cons_eq_ok_iff.1 h
    have hnode' := ofNodeAt_mono_of_children hnode hle fun operands hoperands =>
      ofNodesAt_mono (Nat.succ_le_succ hle) children hoperands
    rw [ofNodesAt, hnode', ofNodesAt_mono hle ns hns]

/-- **A node denotes the same form higher up,** where there is more room below it. -/
theorem ofNodeAt_mono {depth depth' : Nat} {n : Node} {form : Form}
    (h : ofNodeAt depth n = .ok form) (hle : depth' ≤ depth) : ofNodeAt depth' n = .ok form :=
  ofNodeAt_mono_of_children h hle fun _ => ofNodesAt_mono (Nat.succ_le_succ hle) n.children

end Form

/-! ### Parameters -/

namespace Params

variable {n : Node}

theorem ofLambda_of_labelled (h : n.Labelled) :
    ofLambda n = .ok (positional (none :: groupSlots n)) := by
  rw [ofLambda, if_neg (mt Node.isLeaf_iff.1 h.1)]

/-- The label of a group has no slot at the head of a definition. -/
theorem ofDefinition_of_labelled (h : n.Labelled) :
    ofDefinition n = .ok (positional (groupSlots n)) := by
  obtain ⟨hbranch, label, hlabel⟩ := h
  simp only [ofDefinition, Node.text?_eq_some_iff.1 hlabel, if_neg (mt Node.isLeaf_iff.1 hbranch)]

/-- Otherwise a node gives the same parameters at both places. -/
theorem ofDefinition_of_not_labelled (h : ¬n.Labelled) : ofDefinition n = ofLambda n := by
  rw [ofDefinition]
  split
  · next label hvalue =>
    have hleaf : n.isLeaf = true := by
      by_contra hbranch
      exact h ⟨mt Node.isLeaf_iff.2 hbranch, label, Node.text?_eq_some_iff.2 hvalue⟩
    rw [ofLambda, if_pos hleaf, if_pos hleaf]
  · rfl

/-- A slot without a name in front of all others drops one argument. -/
theorem bind_none_cons (slots : List (Option String)) (v : Value) (args : List Value) :
    (positional (none :: slots)).bind (v :: args) = (positional slots).bind args := rfl

end Params

/-! ### Definitions -/

namespace Lambda

/-- What the function of a definition has in common with the function of an item, if they are given
their parameters by the same node and have the same body. -/
structure AgreesWith (first : Node) (params : Params) (body : Form) (l : Lambda) : Prop where
  body_eq : l.body = body
  /-- The parameters are the same if there is no label. -/
  params_eq : ¬first.Labelled → l.params = params
  /-- A label has a slot in the item only, in front of all others, and it is not bound there. -/
  slots_eq : first.Labelled →
    ∃ slots, params = .positional (none :: slots) ∧ l.params = .positional slots
  /-- Without a label the same arguments are bound to the same names. -/
  bind_eq : ¬first.Labelled → ∀ args, l.params.bind args = params.bind args
  /-- With a label the item takes one argument more, in front of the others. -/
  bind_eq_cons : first.Labelled → ∀ v args, l.params.bind args = params.bind (v :: args)
  /-- So calls of the two go the same way, from whatever state. -/
  call_eq : ¬first.Labelled → ∀ limits i j scope args stack depth w,
    Machine.call limits (.closure ⟨i, l.params, l.body, scope⟩) args stack depth w
      = Machine.call limits (.closure ⟨j, params, body, scope⟩) args stack depth w
  call_eq_cons : first.Labelled → ∀ limits i j scope v args stack depth w,
    Machine.call limits (.closure ⟨i, l.params, l.body, scope⟩) args stack depth w
      = Machine.call limits (.closure ⟨j, params, body, scope⟩) (v :: args) stack depth w

theorem agreesWith_of_not_labelled {first : Node} (h : ¬first.Labelled) (params : Params)
    (body : Form) : AgreesWith first params body ⟨params, body⟩ where
  body_eq := rfl
  params_eq _ := rfl
  slots_eq hfirst := absurd hfirst h
  bind_eq _ _ := rfl
  bind_eq_cons hfirst := absurd hfirst h
  call_eq _ _ _ _ _ _ _ _ _ := rfl
  call_eq_cons hfirst := absurd hfirst h

theorem agreesWith_of_labelled {first : Node} (h : first.Labelled) (slots : List (Option String))
    (body : Form) :
    AgreesWith first (.positional (none :: slots)) body ⟨.positional slots, body⟩ where
  body_eq := rfl
  params_eq hfirst := absurd h hfirst
  slots_eq _ := ⟨slots, rfl, rfl⟩
  bind_eq hfirst := absurd h hfirst
  bind_eq_cons _ v args := (Params.bind_none_cons slots v args).symm
  call_eq hfirst := absurd h hfirst
  call_eq_cons _ _ _ _ _ _ _ _ _ _ := rfl

/-- The function of a definition, of which only the first two children matter. -/
theorem ofDefinition_eq_of_children {definition first body : Node} {rest : List Node}
    (h : definition.children = first :: body :: rest) {params : Params} {form : Form}
    (hparams : Params.ofDefinition first = .ok params) (hbody : Form.ofNode body = .ok form) :
    ofDefinition definition = .ok (some ⟨params, form⟩) := by
  rw [ofDefinition, h]
  simp only [hparams, withBody, hbody]
  rfl

/-- An item with the value `lambda` and two children denotes a function only if the first gives
parameters and the second denotes a form. -/
theorem exists_of_ofNode_lambda {n first body : Node} {form : Form} (hn : n.text? = some "lambda")
    (hchildren : n.children = [first, body]) (h : Form.ofNode n = .ok form) :
    ∃ params bodyForm, form = .lambda params bodyForm ∧ Params.ofLambda first = .ok params ∧
      Form.ofNode body = .ok bodyForm := by
  obtain ⟨-, ⟨hleaf, -⟩ | ⟨-, operands, hoperands, hform⟩⟩ := Form.ofNodeAt_eq_ok_iff.1 h
  · rw [hchildren] at hleaf
    cases hleaf
  · rw [hchildren] at hoperands
    obtain ⟨firstForm, rest, -, hrest, rfl⟩ := Form.ofNodesAt_cons_eq_ok_iff.1 hoperands
    obtain ⟨bodyForm, rest, hbody, hnil, rfl⟩ := Form.ofNodesAt_cons_eq_ok_iff.1 hrest
    have hbranches := Form.branches_of_ofBranch hform
    cases hbranches with
    | number hvalue =>
      rw [Node.text?_eq_some_iff.1 hn] at hvalue
      cases hvalue
    | cond htext => exact absurd (Option.some.inj (htext.symm.trans hn)) (by decide)
    | call htext _ hlambda => exact absurd (Option.some.inj (htext.symm.trans hn)) hlambda
    | lambda _ hfirst hparams =>
      rw [hchildren] at hfirst
      obtain rfl := Option.some.inj hfirst
      exact ⟨_, _, rfl, hparams, Form.ofNodeAt_mono hbody (Nat.zero_le _)⟩

/-- **Definitions agree with items.** Whenever an item with the value `lambda` and two children
denotes a function, every definition that begins with these two children denotes one that agrees
with it. Further children of a definition never matter. -/
theorem agreesWith_ofDefinition :
    (∀ (n first body : Node) (form : Form), n.text? = some "lambda" →
        n.children = [first, body] → Form.ofNode n = .ok form →
      ∃ params bodyForm, form = .lambda params bodyForm ∧
        ∀ (definition : Node) (rest : List Node), definition.children = first :: body :: rest →
          ∃ l, ofDefinition definition = .ok (some l) ∧ l.AgreesWith first params bodyForm) ∧
      ∀ (d d' first body : Node) (rest rest' : List Node), d.children = first :: body :: rest →
        d'.children = first :: body :: rest' → ofDefinition d = ofDefinition d' := by
  refine ⟨fun n first body form hn hchildren h => ?_, fun d d' first body rest rest' hd hd' => ?_⟩
  · obtain ⟨params, bodyForm, rfl, hparams, hbody⟩ := exists_of_ofNode_lambda hn hchildren h
    refine ⟨params, bodyForm, rfl, fun definition rest hdefinition => ?_⟩
    by_cases hfirst : first.Labelled
    · have hslots := Params.ofLambda_of_labelled hfirst
      obtain rfl := Except.ok.inj (hparams.symm.trans hslots)
      exact ⟨_, ofDefinition_eq_of_children hdefinition (Params.ofDefinition_of_labelled hfirst)
        hbody, agreesWith_of_labelled hfirst _ _⟩
    · have hsame := (Params.ofDefinition_of_not_labelled hfirst).trans hparams
      exact ⟨_, ofDefinition_eq_of_children hdefinition hsame hbody,
        agreesWith_of_not_labelled hfirst _ _⟩
  · rw [ofDefinition, ofDefinition, hd, hd']

/-! ### A group with a label -/

/-- A leaf that stands for a name. -/
def named (name : String) : Node := { kind := .symbol, value := some (.text name) }

/-- Parameters in a group with a label, one of them without a name. -/
def grouped : Node :=
  { kind := .symbol, value := some (.text "params")
    children := [named "a", { kind := .literal, value := some (.text "b") }, named "c"] }

/-- An item that denotes a function with these parameters. -/
def item : Node :=
  { kind := .symbol, value := some (.text "lambda"), children := [grouped, named "c"] }

/-- A definition with the same parameters, the same body and one child more. -/
def heading : Node :=
  { kind := .definition, value := some (.text "third")
    children := [grouped, named "c", { kind := .program }] }

/-- In the item the third argument that has a name is the fourth one, at the heading the third. -/
theorem agreesWith_heading :
    item.text? = some "lambda" ∧ item.children = [grouped, named "c"] ∧ grouped.Labelled ∧
      Form.ofNode item
        = .ok (.lambda (.positional [none, some "a", none, some "c"]) (.symbol "c")) ∧
      ∃ l, ofDefinition heading = .ok (some l) ∧
        l.AgreesWith grouped (.positional [none, some "a", none, some "c"]) (.symbol "c") := by
  have hform : Form.ofNode item
      = .ok (.lambda (.positional [none, some "a", none, some "c"]) (.symbol "c")) := by cbv
  obtain ⟨params, bodyForm, heq, hdefinitions⟩ :=
    agreesWith_ofDefinition.1 item grouped (named "c") _ rfl rfl hform
  obtain ⟨rfl, rfl⟩ := Form.lambda.inj heq
  exact ⟨rfl, rfl, ⟨List.cons_ne_nil _ _, "params", rfl⟩, hform,
    hdefinitions heading [{ kind := .program }] rfl⟩

end Lambda

end OutlineLisp
