import OutlineLisp.Form.OfNode
import OutlineLisp.Value.Basic

/-!
# Free names

A name is free in a form where no enclosing function has a parameter of that name. A call binds all
named parameters of a closure and nothing else, whatever the number of its arguments: those that are
missing are nil, and those that have no slot, or one without a name, are dropped.

## Main definitions

* `Params.names`: the names of parameters.
* `Form.Free`: the names that are free in a form.

## Main results

* `Params.map_fst_bind`, `Params.of_mem_bind`: what a call binds.
* `Lambda.ofDefinition_eq_none_iff`: the definitions without a function are those without children.
-/

namespace OutlineLisp

/-! ### Parameters -/

/-- Bindings are looked up from the last one on, and what is found is one of them. -/
theorem mem_of_lookup_reverse {bindings : List (String × Value)} {x : String} {v : Value}
    (h : bindings.reverse.lookup x = some v) : (x, v) ∈ bindings := by
  obtain ⟨before, after, hsplit, -⟩ := List.lookup_eq_some_iff.1 h
  rw [← List.mem_reverse, hsplit]
  simp

namespace Params

/-- The names of parameters, in the order of the slots. -/
def names (ps : Params) : List String := ps.slots.filterMap id

theorem map_fst_bindSlots (slots : List (Option String)) (args : List Value) :
    (bindSlots slots args).map Prod.fst = slots.filterMap id := by
  induction slots generalizing args with
  | nil => rfl
  | cons slot slots ih =>
    cases slot with
    | none => exact ih args.tail
    | some name => simp [bindSlots, ih]

/-- A call binds the names of the parameters. -/
theorem map_fst_bind (ps : Params) (args : List Value) :
    (ps.bind args).map Prod.fst = ps.names := map_fst_bindSlots ps.slots args

theorem of_mem_bindSlots {slots : List (Option String)} {args : List Value} {b : String × Value}
    (h : b ∈ bindSlots slots args) : b.2 = .nil ∨ b.2 ∈ args := by
  induction slots generalizing args with
  | nil => cases h
  | cons slot slots ih =>
    have htail (h : b ∈ bindSlots slots args.tail) : b.2 = .nil ∨ b.2 ∈ args :=
      (ih h).imp_right List.mem_of_mem_tail
    cases slot with
    | none => exact htail h
    | some name =>
      rcases List.mem_cons.1 h with rfl | h
      · cases args with
        | nil => exact .inl rfl
        | cons v args => exact .inr List.mem_cons_self
      · exact htail h

/-- A call binds names to arguments, or to nil. -/
theorem of_mem_bind {ps : Params} {args : List Value} {b : String × Value} (h : b ∈ ps.bind args) :
    b.2 = .nil ∨ b.2 ∈ args := of_mem_bindSlots h

/-- The bindings of a call, as its scope keeps them, have every parameter. -/
theorem exists_lookup_bind {ps : Params} {x : String} (h : x ∈ ps.names) (args : List Value) :
    ∃ v, (ps.bind args).reverse.lookup x = some v := by
  refine Option.ne_none_iff_exists'.1 fun hnone => ?_
  rw [← map_fst_bind ps args, List.mem_map] at h
  obtain ⟨b, hb, rfl⟩ := h
  simpa using List.lookup_eq_none_iff.1 hnone b (List.mem_reverse.2 hb)

/-- What they have is an argument, or nil. -/
theorem of_lookup_bind {ps : Params} {args : List Value} {x : String} {v : Value}
    (h : (ps.bind args).reverse.lookup x = some v) : v = .nil ∨ v ∈ args :=
  of_mem_bind (mem_of_lookup_reverse h)

end Params

/-! ### Forms -/

/-- Whether a name is free in a form: it occurs where no enclosing function has it as a
parameter. -/
inductive Form.Free (x : String) : Form → Prop where
  | symbol : Free x (.symbol x)
  | test {test consequent : Form} {alternative : Option Form} (h : Free x test) :
    Free x (.cond test consequent alternative)
  | consequent {test consequent : Form} {alternative : Option Form} (h : Free x consequent) :
    Free x (.cond test consequent alternative)
  | alternative {test consequent form : Form} (h : Free x form) :
    Free x (.cond test consequent (some form))
  | body {ps : Params} {body : Form} (hx : x ∉ ps.names) (h : Free x body) :
    Free x (.lambda ps body)
  | operator {operator : Form} {operands : List Form} (h : Free x operator) :
    Free x (.call operator operands)
  | operand {operator operand : Form} {operands : List Form} (hmem : operand ∈ operands)
    (h : Free x operand) : Free x (.call operator operands)

/-! ### Definitions -/

/-- The definitions that denote no function are those without children. -/
theorem Lambda.ofDefinition_eq_none_iff {definition : Node} :
    ofDefinition definition = .ok none ↔ definition.children = [] := by
  have hmap (r : Except Fault Lambda) : r.map some ≠ .ok none := by
    intro h
    cases r <;> cases h
  rw [ofDefinition]
  split
  · next h => simp [h]
  · next body h => simp [h, hmap]
  · next first body rest h =>
    cases Params.ofDefinition first <;> simp [h, hmap]

end OutlineLisp
