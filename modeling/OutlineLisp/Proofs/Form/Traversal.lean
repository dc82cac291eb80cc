import OutlineLisp.Form.OfNode
import OutlineLisp.Proofs.Tree.Source

/-!
# The first offence

A form is made by going through a tree depth first and from left to right. Every node is passed
twice, on the way to its children and on the way back. A node that is nested too deep offends at
once. Any other fault of a node comes to light on the way back only: a leaf must be a literal or a
name and have a value, and a node with children must have a value, whatever its kind is. The first
offence is the fault, and without one there is a form.

Nothing else can go wrong. In particular the first operand of a function always gives parameters
once all operands have become forms.

## Main definitions

* `Node.Meaningful`: a node says enough to denote something.
* `Node.Nestable`: nothing in a node is nested too deep.
* `Passage`, `Node.passages`: the passages of a traversal.
* `Node.firstOffence?`: the first offence of a traversal.
* `Form.Branches`: what a node with children may denote.

## Main results

* `Form.raised?_ofNode`: the fault of a node is its first offence.
* `Form.exists_ofNode_iff`: which nodes denote forms.
* `Params.exists_ofLambda_of_operands`: the parameters of a function.
-/

namespace OutlineLisp

/-- The fault of an outcome, if it is one. -/
def Fault.raised? {α : Type} : Except Fault α → Option Fault
  | .ok _ => none
  | .error fault => some fault

theorem Fault.raised?_eq_none_iff {α : Type} {r : Except Fault α} :
    raised? r = none ↔ ∃ a, r = .ok a := by
  cases r with
  | ok a => exact iff_of_true rfl ⟨a, rfl⟩
  | error fault => exact iff_of_false nofun nofun

theorem Fault.raised?_eq_some_iff {α : Type} {r : Except Fault α} {fault : Fault} :
    raised? r = some fault ↔ r = .error fault := by
  cases r <;> simp [raised?]

namespace Node

/-- Whether a node says enough to denote something: it has a value, and if it is a leaf it is a
literal or a name. -/
structure Meaningful (n : Node) : Prop where
  value : ∃ a, n.value = some a
  leaf : n.children = [] → n.kind = .literal ∨ n.kind.isName = true

/-- Whether no node in a tree lies deeper below its root than a form may be nested. -/
def Nestable (n : Node) : Prop := ∀ p ∈ n.leveled 0, p.1 ≤ Form.maxNesting

theorem meaningful_iff {n : Node} :
    n.Meaningful ↔ n.value.isSome ∧ (n.isLeaf = true → n.kind = .literal ∨ n.kind.isName) := by
  rw [Option.isSome_iff_exists, isLeaf, List.isEmpty_iff]
  exact ⟨fun h => ⟨h.value, h.leaf⟩, fun h => ⟨h.1, h.2⟩⟩

instance (n : Node) : Decidable n.Meaningful := decidable_of_iff _ meaningful_iff.symm

theorem isLeaf_iff {n : Node} : n.isLeaf = true ↔ n.children = [] := List.isEmpty_iff

theorem text?_eq_some_iff {n : Node} {s : String} :
    n.text? = some s ↔ n.value = some (.text s) := by
  rw [text?, Option.bind_eq_some_iff]
  constructor
  · rintro ⟨a, ha, hs⟩
    cases a with
    | number x => cases hs
    | text t =>
      obtain rfl := Option.some.inj hs
      exact ha
  · exact fun h => ⟨_, h, rfl⟩

end Node

/-! ### Traversals -/

/-- A node that is passed in a traversal. -/
inductive Passage where
  /-- On the way to its children, at some depth. -/
  | down (depth : Nat) (n : Node)
  /-- On the way back, after all its children. -/
  | up (n : Node)

/-- What is wrong with a node when it is passed. -/
def Passage.offence? : Passage → Option Fault
  | down depth _ =>
    if Form.maxNesting < depth then some (.exhausted (.nesting Form.maxNesting)) else none
  | up n => if n.Meaningful then none else some n.malformed

namespace Node

mutual

/-- The passages of a traversal of a tree whose root lies at a depth. -/
def passages (depth : Nat) : Node → List Passage
  | ⟨kind, value, children, indent, span⟩ =>
    .down depth ⟨kind, value, children, indent, span⟩ ::
      (passagesAll (depth + 1) children ++ [.up ⟨kind, value, children, indent, span⟩])

/-- The passages of a traversal of trees, one after another. -/
def passagesAll (depth : Nat) : List Node → List Passage
  | [] => []
  | n :: ns => passages depth n ++ passagesAll depth ns

end

/-- The first offence of a traversal. -/
def firstOffence? (n : Node) : Option Fault := (n.passages 0).findSome? Passage.offence?

theorem passages_eq (depth : Nat) (n : Node) :
    n.passages depth = .down depth n :: (passagesAll (depth + 1) n.children ++ [.up n]) := by
  cases n
  rfl

/-- What is asked of the passages of trees is asked of their nodes and depths. -/
theorem forall_mem_passagesAll {P : Passage → Prop} (depth : Nat) (ns : List Node) :
    (∀ p ∈ passagesAll depth ns, P p) ↔
      (∀ p ∈ leveledAll depth ns, P (.down p.1 p.2)) ∧ ∀ n ∈ walkAll ns, P (.up n) := by
  match ns with
  | [] => exact iff_of_true nofun ⟨nofun, nofun⟩
  | ⟨kind, value, children, indent, span⟩ :: ns =>
    have hchildren := forall_mem_passagesAll (P := P) (depth + 1) children
    have hns := forall_mem_passagesAll (P := P) depth ns
    rw [passagesAll, passages, leveledAll_cons, walkAll_cons]
    simp only [List.cons_append, List.forall_mem_cons, List.forall_mem_append, hchildren,
      hns]
    tauto

theorem forall_mem_passages {P : Passage → Prop} (depth : Nat) (n : Node) :
    (∀ p ∈ n.passages depth, P p) ↔
      (∀ p ∈ n.leveled depth, P (.down p.1 p.2)) ∧ ∀ m ∈ n.walk, P (.up m) := by
  have h := forall_mem_passagesAll (P := P) depth [n]
  simpa only [passagesAll, leveledAll, walkAll, List.append_nil] using h

/-- In a traversal without an offence no node is too deep, and every node says enough. -/
theorem firstOffence?_eq_none_iff {n : Node} :
    n.firstOffence? = none ↔ n.Nestable ∧ ∀ m ∈ n.walk, m.Meaningful := by
  rw [firstOffence?, List.findSome?_eq_none_iff, forall_mem_passages]
  simp [Passage.offence?, Nestable]

/-- If every node says enough, only the depth can offend. -/
theorem eq_nesting_of_firstOffence? {n : Node} {fault : Fault} (h : ∀ m ∈ n.walk, m.Meaningful)
    (hfault : n.firstOffence? = some fault) :
    fault = .exhausted (.nesting Form.maxNesting) := by
  obtain ⟨p, hp, hoffence⟩ := List.exists_of_findSome?_eq_some hfault
  have hall : ∀ p ∈ n.passages 0, ∀ fault, p.offence? = some fault →
      fault = .exhausted (.nesting Form.maxNesting) := by
    refine (forall_mem_passages 0 n).2 ⟨fun p _ fault hdown => ?_, fun m hm fault hup => ?_⟩
    · rw [Passage.offence?] at hdown
      split at hdown
      · exact (Option.some.inj hdown).symm
      · cases hdown
    · rw [Passage.offence?, if_pos (h m hm)] at hup
      cases hup
  exact hall p hp fault hoffence

/-- Nodes that offend nowhere say enough. -/
theorem meaningful_of_passagesAll {depth : Nat} {ns : List Node}
    (h : (passagesAll depth ns).findSome? Passage.offence? = none) {n : Node} (hn : n ∈ ns) :
    n.Meaningful := by
  rw [List.findSome?_eq_none_iff, forall_mem_passagesAll] at h
  simpa [Passage.offence?] using h.2 n (mem_walkAll_of_mem hn)

end Node

/-! ### Parameters -/

namespace Params

variable {n : Node}

theorem exists_ofLeaf (h : n.Meaningful) (hleaf : n.children = []) : ∃ ps, ofLeaf n = .ok ps := by
  obtain ⟨a, ha⟩ := h.value
  rcases h.leaf hleaf with hkind | hkind
  · exact ⟨nullary, by simp [ofLeaf, hkind]⟩
  · by_cases hliteral : n.kind = .literal
    · exact ⟨nullary, by simp [ofLeaf, hliteral]⟩
    · exact ⟨single a.display, by simp [ofLeaf, hliteral, hkind, ha]⟩

theorem exists_ofLambda (h : n.Meaningful) : ∃ ps, ofLambda n = .ok ps := by
  by_cases hleaf : n.children = []
  · simpa [ofLambda, Node.isLeaf_iff.2 hleaf] using exists_ofLeaf h hleaf
  · have hbranch : ¬n.isLeaf = true := fun hl => hleaf (Node.isLeaf_iff.1 hl)
    exact ⟨positional (none :: groupSlots n), by rw [ofLambda, if_neg hbranch]⟩

/-- Whatever says enough gives parameters, at the head of a definition as in a function. -/
theorem exists_ofDefinition (h : n.Meaningful) : ∃ ps, ofDefinition n = .ok ps := by
  rw [ofDefinition]
  split
  · by_cases hleaf : n.children = []
    · simpa [Node.isLeaf_iff.2 hleaf] using exists_ofLeaf h hleaf
    · have hbranch : ¬n.isLeaf = true := fun hl => hleaf (Node.isLeaf_iff.1 hl)
      exact ⟨positional (groupSlots n), by rw [if_neg hbranch]⟩
  · exact exists_ofLambda h

end Params

/-! ### Forms -/

namespace Form

variable {n : Node}

theorem ofNodeAt_eq (depth : Nat) (n : Node) :
    ofNodeAt depth n
      = if maxNesting < depth then .error (.exhausted (.nesting maxNesting))
        else if n.children.isEmpty then ofLeaf n
        else match ofNodesAt (depth + 1) n.children with
          | .error f => .error f
          | .ok operands => ofBranch n operands := by
  cases n
  rfl

/-- Where the form of a node comes from. -/
theorem ofNodeAt_eq_ok_iff {depth : Nat} {form : Form} :
    ofNodeAt depth n = .ok form ↔ depth ≤ maxNesting ∧
      (n.children = [] ∧ ofLeaf n = .ok form ∨ n.children ≠ [] ∧
        ∃ operands, ofNodesAt (depth + 1) n.children = .ok operands ∧
          ofBranch n operands = .ok form) := by
  rw [ofNodeAt_eq, ← Nat.not_lt]
  by_cases hdeep : maxNesting < depth
  · simp [hdeep]
  · by_cases hleaf : n.children = []
    · simp [hdeep, hleaf]
    · rw [if_neg hdeep, if_neg (mt List.isEmpty_iff.1 hleaf)]
      cases ofNodesAt (depth + 1) n.children with
      | error fault => simp [hleaf]
      | ok operands => simp [hdeep, hleaf]

theorem ofNodesAt_cons_eq_ok_iff {depth : Nat} {ns : List Node} {forms : List Form} :
    ofNodesAt depth (n :: ns) = .ok forms ↔
      ∃ form rest, ofNodeAt depth n = .ok form ∧ ofNodesAt depth ns = .ok rest ∧
        forms = form :: rest := by
  rw [ofNodesAt]
  cases ofNodeAt depth n with
  | error fault => simp
  | ok form =>
    cases ofNodesAt depth ns with
    | error fault => simp
    | ok rest => simp [eq_comm]

/-- What a node with children may denote, given the forms of the children. -/
inductive Branches (n : Node) (operands : List Form) : Form → Prop where
  | number {x : Float} (h : n.value = some (.number x)) :
    Branches n operands (call (.number x) operands)
  | cond (h : n.text? = some "if") : Branches n operands (condOf operands)
  | lambda {first : Node} {params : Params} (h : n.text? = some "lambda")
    (hfirst : n.children.head? = some first) (hparams : Params.ofLambda first = .ok params) :
    Branches n operands (.lambda params (operands.getD 1 nil))
  | call {name : String} (h : n.text? = some name) (hif : name ≠ "if")
    (hlambda : name ≠ "lambda") : Branches n operands (.call (symbol name) operands)

theorem branches_of_ofBranch {operands : List Form} {form : Form}
    (h : ofBranch n operands = .ok form) : Branches n operands form := by
  rw [ofBranch] at h
  split at h
  · cases h
  · next hvalue =>
    cases h
    exact .number hvalue
  · next name hvalue =>
    have htext := Node.text?_eq_some_iff.2 hvalue
    split at h
    · next hif =>
      cases h
      exact .cond (hif ▸ htext)
    · next hif =>
      split at h
      · next hlambda =>
        split at h
        · cases h
        · next first hfirst =>
          cases hparams : Params.ofLambda first with
          | error fault =>
            rw [hparams] at h
            cases h
          | ok params =>
            rw [hparams] at h
            cases h
            exact .lambda (hlambda ▸ htext) hfirst hparams
      · next hlambda =>
        cases h
        exact .call htext hif hlambda

/-- A leaf denotes a form unless it says too little. -/
theorem raised?_ofLeaf (hleaf : n.children = []) :
    Fault.raised? (ofLeaf n) = (Passage.up n).offence? := by
  obtain ⟨kind, value, children, indent, span⟩ := n
  obtain rfl : children = [] := hleaf
  cases value with
  | none => cases kind <;> rfl
  | some a => cases kind <;> cases a <;> rfl

/-- So does a node with children whose first child says enough. -/
theorem raised?_ofBranch {first : Node} (hfirst : n.children.head? = some first)
    (h : first.Meaningful) (operands : List Form) :
    Fault.raised? (ofBranch n operands) = (Passage.up n).offence? := by
  have hbranch : n.children ≠ [] := by
    rintro hnil
    rw [hnil] at hfirst
    cases hfirst
  cases hvalue : n.value with
  | none =>
    have hn : ¬n.Meaningful := fun hn => by simpa [hvalue] using hn.value
    rw [ofBranch, hvalue, Passage.offence?, if_neg hn]
    rfl
  | some a =>
    have hn : n.Meaningful := ⟨⟨a, hvalue⟩, fun hnil => absurd hnil hbranch⟩
    rw [Passage.offence?, if_pos hn, ofBranch, hvalue]
    cases a with
    | number x => rfl
    | text name =>
      obtain ⟨ps, hps⟩ := Params.exists_ofLambda h
      simp only [hfirst, hps]
      split
      · rfl
      · split <;> rfl

/-- The first offence among the children and, after them, of the node itself. -/
theorem raised?_ofNodeAt_of_children {depth : Nat}
    (hchildren : Fault.raised? (ofNodesAt (depth + 1) n.children)
      = (Node.passagesAll (depth + 1) n.children).findSome? Passage.offence?) :
    Fault.raised? (ofNodeAt depth n) = (n.passages depth).findSome? Passage.offence? := by
  have hup : [Passage.up n].findSome? Passage.offence? = (Passage.up n).offence? := by
    rw [List.findSome?_cons]
    cases (Passage.up n).offence? <;> rfl
  rw [ofNodeAt_eq, Node.passages_eq, List.findSome?_cons, List.findSome?_append, hup, ← hchildren]
  by_cases hdeep : maxNesting < depth
  · rw [if_pos hdeep, Passage.offence?, if_pos hdeep]
    rfl
  · rw [if_neg hdeep, Passage.offence?, if_neg hdeep]
    by_cases hleaf : n.children = []
    · rw [if_pos (List.isEmpty_iff.2 hleaf), raised?_ofLeaf hleaf, hleaf]
      rfl
    · rw [if_neg (mt List.isEmpty_iff.1 hleaf)]
      cases hoperands : ofNodesAt (depth + 1) n.children with
      | error fault => rfl
      | ok operands =>
        obtain ⟨first, rest, hcons⟩ := List.exists_cons_of_ne_nil hleaf
        have hfirst : first.Meaningful := by
          rw [hoperands] at hchildren
          refine Node.meaningful_of_passagesAll hchildren.symm ?_
          rw [hcons]
          exact List.mem_cons_self
        exact raised?_ofBranch (by rw [hcons]; rfl) hfirst operands

/-- The first offence among the nodes that denote forms, one after another. -/
theorem raised?_ofNodesAt (depth : Nat) (ns : List Node) :
    Fault.raised? (ofNodesAt depth ns)
      = (Node.passagesAll depth ns).findSome? Passage.offence? := by
  match ns with
  | [] => rfl
  | ⟨kind, value, children, indent, span⟩ :: ns =>
    have hnode := raised?_ofNodeAt_of_children
      (n := ⟨kind, value, children, indent, span⟩) (raised?_ofNodesAt (depth + 1) children)
    rw [ofNodesAt, Node.passagesAll, List.findSome?_append, ← hnode, ← raised?_ofNodesAt depth ns]
    cases ofNodeAt depth _ with
    | error fault => rfl
    | ok form => cases ofNodesAt depth ns <;> rfl

/-- **The fault of a node is its first offence.** -/
theorem raised?_ofNode (n : Node) : Fault.raised? (ofNode n) = n.firstOffence? :=
  raised?_ofNodeAt_of_children (raised?_ofNodesAt 1 n.children)

/-- **Which nodes denote forms:** those in which nothing is too deep and every node says enough. -/
theorem exists_ofNode_iff :
    (∃ form, ofNode n = .ok form) ↔ n.Nestable ∧ ∀ m ∈ n.walk, m.Meaningful := by
  rw [← Fault.raised?_eq_none_iff, raised?_ofNode, Node.firstOffence?_eq_none_iff]

theorem ofNode_eq_error_iff {fault : Fault} :
    ofNode n = .error fault ↔ n.firstOffence? = some fault := by
  rw [← Fault.raised?_eq_some_iff, raised?_ofNode]

end Form

/-- Once its operands have become forms, a function has parameters. -/
theorem Params.exists_ofLambda_of_operands {depth : Nat} {n first : Node} {operands : List Form}
    (hoperands : Form.ofNodesAt depth n.children = .ok operands)
    (hfirst : n.children.head? = some first) : ∃ ps, ofLambda first = .ok ps := by
  have hnone := Fault.raised?_eq_none_iff.2 ⟨operands, hoperands⟩
  rw [Form.raised?_ofNodesAt] at hnone
  exact exists_ofLambda (Node.meaningful_of_passagesAll hnone (List.mem_of_mem_head? hfirst))

end OutlineLisp
