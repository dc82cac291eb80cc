import Mathlib.Data.List.Dedup
import Mathlib.Data.List.Nodup
import OutlineLisp.Proofs.Form.Free

/-!
# Renaming parameters

A parameter is renamed in all its slots and at the places that it binds. If the new names are all
different and occur nowhere in the form, then none of them captures another name, and the form that
results differs from the first only in the choice of names.

Such forms are compared by pairing the binders that enclose a place: two names mean the same if the
innermost pair that has one of them has both, and names without binders are compared as the
surroundings say.

## Main definitions

* `Form.Renames`, `Form.RenamedTo`: renaming parameters, and renaming them to new names.
* `beneath`: what names mean beneath paired binders.
* `Form.Alpha`: forms that differ only in the choice of names.

## Main results

* `Form.RenamedTo.alpha`: renaming parameters to new names is a choice of names.
-/

namespace OutlineLisp

namespace Params

/-- Parameters under other names. -/
def rename (τ : String → String) : Params → Params
  | nullary => nullary
  | single name => single (τ name)
  | positional slots => positional (slots.map (Option.map τ))

theorem slots_rename (τ : String → String) (ps : Params) :
    (ps.rename τ).slots = ps.slots.map (Option.map τ) := by
  cases ps <;> rfl

theorem names_rename (τ : String → String) (ps : Params) :
    (ps.rename τ).names = ps.names.map τ := by
  rw [names, slots_rename, List.filterMap_map, names, List.map_filterMap]
  rfl

theorem rename_id (ps : Params) : ps.rename id = ps := by
  cases ps <;> simp [rename]

/-- The new names among those that parameters are renamed to. -/
def newNames (τ : String → String) (ps : Params) : List String :=
  (ps.names.dedup.filter fun a => τ a ≠ a).map τ

theorem mem_newNames {τ : String → String} {ps : Params} {a : String} (ha : a ∈ ps.names)
    (hne : τ a ≠ a) : τ a ∈ ps.newNames τ :=
  List.mem_map_of_mem (List.mem_filter.2 ⟨List.mem_dedup.2 ha, decide_eq_true hne⟩)

/-- Different parameters that are renamed are renamed differently, if the new names are. -/
theorem eq_of_rename_eq {τ : String → String} {ps : Params} (h : (ps.newNames τ).Nodup)
    {a b : String} (ha : a ∈ ps.names) (hb : b ∈ ps.names) (hane : τ a ≠ a) (hbne : τ b ≠ b)
    (hab : τ a = τ b) : a = b :=
  List.inj_on_of_nodup_map h (List.mem_filter.2 ⟨List.mem_dedup.2 ha, decide_eq_true hane⟩)
    (List.mem_filter.2 ⟨List.mem_dedup.2 hb, decide_eq_true hbne⟩) hab

/-- The names of parameters paired with other names, the last slot first. -/
def pairs (τ : String → String) (ps : Params) : List (String × String) :=
  ps.names.reverse.map fun a => (a, τ a)

end Params

namespace Form

/-! ### Renaming -/

/-- Whether a name occurs in a form, be it as a parameter. -/
inductive Mentions (x : String) : Form → Prop where
  | symbol : Mentions x (.symbol x)
  | test {test consequent : Form} {alternative : Option Form} (h : Mentions x test) :
    Mentions x (.cond test consequent alternative)
  | consequent {test consequent : Form} {alternative : Option Form} (h : Mentions x consequent) :
    Mentions x (.cond test consequent alternative)
  | alternative {test consequent form : Form} (h : Mentions x form) :
    Mentions x (.cond test consequent (some form))
  | parameter {ps : Params} {body : Form} (h : x ∈ ps.names) : Mentions x (.lambda ps body)
  | body {ps : Params} {body : Form} (h : Mentions x body) : Mentions x (.lambda ps body)
  | operator {operator : Form} {operands : List Form} (h : Mentions x operator) :
    Mentions x (.call operator operands)
  | operand {operator operand : Form} {operands : List Form} (hmem : operand ∈ operands)
    (h : Mentions x operand) : Mentions x (.call operator operands)

theorem Free.mentions {x : String} {form : Form} (h : form.Free x) : form.Mentions x := by
  induction h with
  | symbol => exact .symbol
  | test _ ih => exact .test ih
  | consequent _ ih => exact .consequent ih
  | alternative _ ih => exact .alternative ih
  | body _ _ ih => exact .body ih
  | operator _ ih => exact .operator ih
  | operand hmem _ ih => exact .operand hmem ih

/-- Whether a form becomes another by renaming parameters. At the places that a parameter binds its
new name is that of the substitution there, and the new names are listed in the order of the
functions, once for each parameter. -/
inductive Renames : (String → String) → List String → Form → Form → Prop where
  | nil (σ : String → String) : Renames σ [] .nil .nil
  | number (σ : String → String) (x : Float) : Renames σ [] (.number x) (.number x)
  | text (σ : String → String) (s : String) : Renames σ [] (.text s) (.text s)
  | symbol (σ : String → String) (x : String) : Renames σ [] (.symbol x) (.symbol (σ x))
  | guard {σ : String → String} {new₁ new₂ : List String} {test test' consequent consequent' : Form}
    (ht : Renames σ new₁ test test') (hc : Renames σ new₂ consequent consequent') :
    Renames σ (new₁ ++ new₂) (.cond test consequent none) (.cond test' consequent' none)
  | branch {σ : String → String} {new₁ new₂ new₃ : List String}
    {test test' consequent consequent' form form' : Form} (ht : Renames σ new₁ test test')
    (hc : Renames σ new₂ consequent consequent') (ha : Renames σ new₃ form form') :
    Renames σ (new₁ ++ (new₂ ++ new₃)) (.cond test consequent (some form))
      (.cond test' consequent' (some form'))
  /-- Inside a function its parameters have the names that they are given there. -/
  | lambda {σ τ : String → String} {new : List String} {ps : Params} {body body' : Form}
    (hτ : ∀ x, x ∉ ps.names → τ x = σ x) (h : Renames τ new body body') :
    Renames σ (ps.newNames τ ++ new) (.lambda ps body) (.lambda (ps.rename τ) body')
  | call {σ : String → String} {new : List String} {news : List (List String)}
    {operator operator' : Form} {operands operands' : List Form}
    (h : Renames σ new operator operator') (hnews : news.length = operands.length)
    (hlength : operands'.length = operands.length)
    (hs : ∀ p ∈ operands.zip (news.zip operands'), Renames σ p.2.1 p.1 p.2.2) :
    Renames σ (new ++ news.flatten) (.call operator operands) (.call operator' operands')

/-- Whether a form becomes another by renaming parameters to new names, all different and none of
them in the form. -/
def RenamedTo (form form' : Form) : Prop :=
  ∃ new, Renames id new form form' ∧ new.Nodup ∧ ∀ x ∈ new, ¬form.Mentions x

end Form

/-! ### Choosing names -/

/-- Whether two names mean the same beneath binders that are paired, the innermost first. -/
def beneath (R : String → String → Prop) : List (String × String) → String → String → Prop
  | [], x, x' => R x x'
  | (a, a') :: pairs, x, x' => x = a ∧ x' = a' ∨ x ≠ a ∧ x' ≠ a' ∧ beneath R pairs x x'

/-- A name and what it is renamed to mean the same beneath binders that are renamed, if no other of
the binders is renamed to that. -/
theorem beneath_map {R : String → String → Prop} {τ : String → String} {names : List String}
    {x : String} (hinj : ∀ a ∈ names, τ a = τ x → a = x) (hR : x ∉ names → R x (τ x)) :
    beneath R (names.map fun a => (a, τ a)) x (τ x) := by
  induction names with
  | nil => exact hR List.not_mem_nil
  | cons a names ih =>
    obtain ⟨ha, hinj⟩ := List.forall_mem_cons.1 hinj
    by_cases hx : x = a
    · exact .inl ⟨hx, congrArg τ hx⟩
    · refine .inr ⟨hx, fun h => hx (ha h.symm).symm, ih hinj fun hnames => ?_⟩
      exact hR (List.not_mem_cons_of_ne_of_not_mem hx hnames)

theorem beneath_self {R : String → String → Prop} (hR : ∀ x, R x x) (names : List String)
    (x : String) : beneath R (names.map fun a => (a, a)) x x :=
  beneath_map (fun _ _ h => h) fun _ => hR x

namespace Form

/-- Whether two forms differ only in the choice of names, free names being compared as a relation
says. -/
inductive Alpha : (String → String → Prop) → Form → Form → Prop where
  | nil {R : String → String → Prop} : Alpha R .nil .nil
  | number {R : String → String → Prop} (x : Float) : Alpha R (.number x) (.number x)
  | text {R : String → String → Prop} (s : String) : Alpha R (.text s) (.text s)
  | symbol {R : String → String → Prop} {x x' : String} (h : R x x') :
    Alpha R (.symbol x) (.symbol x')
  | guard {R : String → String → Prop} {test test' consequent consequent' : Form}
    (ht : Alpha R test test') (hc : Alpha R consequent consequent') :
    Alpha R (.cond test consequent none) (.cond test' consequent' none)
  | branch {R : String → String → Prop} {test test' consequent consequent' form form' : Form}
    (ht : Alpha R test test') (hc : Alpha R consequent consequent') (ha : Alpha R form form') :
    Alpha R (.cond test consequent (some form)) (.cond test' consequent' (some form'))
  | lambda {R : String → String → Prop} {τ : String → String} {ps : Params} {body body' : Form}
    (h : Alpha (beneath R (ps.pairs τ)) body body') :
    Alpha R (.lambda ps body) (.lambda (ps.rename τ) body')
  | call {R : String → String → Prop} {operator operator' : Form} {operands operands' : List Form}
    (h : Alpha R operator operator') (hlength : operands.length = operands'.length)
    (hs : ∀ p ∈ operands.zip operands', Alpha R p.1 p.2) :
    Alpha R (.call operator operands) (.call operator' operands')

/-- A form differs from itself in nothing. -/
theorem alpha_refl {R : String → String → Prop} (hR : ∀ x, R x x) (form : Form) :
    Alpha R form form := by
  cases form with
  | nil => exact .nil
  | number x => exact .number x
  | text s => exact .text s
  | symbol x => exact .symbol (hR x)
  | lambda ps body =>
    have hbody : Alpha (beneath R (ps.pairs id)) body body :=
      alpha_refl (beneath_self hR ps.names.reverse) body
    simpa only [Params.rename_id] using Alpha.lambda hbody
  | cond test consequent alternative =>
    cases alternative with
    | none => exact .guard (alpha_refl hR test) (alpha_refl hR consequent)
    | some form =>
      exact .branch (alpha_refl hR test) (alpha_refl hR consequent) (alpha_refl hR form)
  | call operator operands =>
    refine .call (alpha_refl hR operator) rfl fun p hp => ?_
    rw [List.zip_eq_zipWith, List.zipWith_self] at hp
    obtain ⟨operand, hmem, rfl⟩ := List.mem_map.1 hp
    exact alpha_refl hR operand
termination_by form

/-! ### New names are a choice of names -/

/-- What makes a choice of names of a renaming: its new names are different from each other and from
the old ones, which are those already given to names from outside, and none of them is in the form;
names from outside keep theirs or have old ones, and mean the same as those. -/
structure Chooses (R : String → String → Prop) (σ : String → String) (old new : List String)
    (form : Form) : Prop where
  nodup : new.Nodup
  disjoint : ∀ x ∈ new, x ∉ old
  unmentioned : ∀ x, x ∈ old ∨ x ∈ new → ¬form.Mentions x
  outside : ∀ x, form.Free x → σ x = x ∨ σ x ∈ old
  means : ∀ x, form.Free x → R x (σ x)

variable {R : String → String → Prop} {σ τ : String → String} {old new new' : List String}
  {form form' : Form}

/-- A part of a form has the same choice of names. -/
theorem Chooses.part (h : Chooses R σ old new form) (hnew : new'.Sublist new)
    (hmentions : ∀ x, form'.Mentions x → form.Mentions x)
    (hfree : ∀ x, form'.Free x → form.Free x) : Chooses R σ old new' form' where
  nodup := h.nodup.sublist hnew
  disjoint x hx := h.disjoint x (hnew.subset hx)
  unmentioned x hx hmem :=
    h.unmentioned x (hx.imp_right fun hx => hnew.subset hx) (hmentions x hmem)
  outside x hx := h.outside x (hfree x hx)
  means x hx := h.means x (hfree x hx)

/-- Inside a function no name but a parameter has the name that the parameter is given. -/
theorem Chooses.eq_of_rename_eq {ps : Params} {body : Form}
    (h : Chooses R σ old (ps.newNames τ ++ new) (.lambda ps body))
    (hτ : ∀ x, x ∉ ps.names → τ x = σ x) {a x : String} (hx : body.Free x) (ha : a ∈ ps.names)
    (hax : τ a = τ x) : a = x := by
  have hin {b : String} (hb : b ∈ ps.names) (hne : τ b ≠ b) : τ b ∈ ps.newNames τ ++ new :=
    List.mem_append_left _ (Params.mem_newNames hb hne)
  by_cases hane : τ a = a
  · -- If `x` is renamed at all, then to a name that does not occur, as `a` does.
    have hmention : ¬(τ x ∈ old ∨ τ x ∈ ps.newNames τ ++ new) := by
      rw [← hax, hane]
      exact fun hmem => h.unmentioned a hmem (.parameter ha)
    rw [not_or] at hmention
    by_cases hxne : τ x = x
    · rw [← hane, hax, hxne]
    · by_cases hps : x ∈ ps.names
      · exact absurd (hin hps hxne) hmention.2
      · rw [hτ x hps] at hxne hmention
        exact absurd ((h.outside x (.body hps hx)).resolve_left hxne) hmention.1
  · -- `a` has a new name, so `x` has been renamed to it.
    have hxne : τ x ≠ x := by
      intro hxeq
      refine h.unmentioned x (.inr ?_) (.body hx.mentions)
      rw [← hxeq, ← hax]
      exact hin ha hane
    by_cases hps : x ∈ ps.names
    · exact Params.eq_of_rename_eq (h.nodup.sublist (List.sublist_append_left _ _)) ha hps hane hxne
        hax
    · have hold : τ x ∈ old := by
        rw [hτ x hps] at hxne ⊢
        exact (h.outside x (.body hps hx)).resolve_left hxne
      exact absurd hold (hax ▸ h.disjoint _ (hin ha hane))

/-- The body of a function has the same choice of names, the new names of the parameters being old
there. -/
theorem Chooses.body {ps : Params} {body : Form}
    (h : Chooses R σ old (ps.newNames τ ++ new) (.lambda ps body))
    (hτ : ∀ x, x ∉ ps.names → τ x = σ x) :
    Chooses (beneath R (ps.pairs τ)) τ (old ++ ps.newNames τ) new body where
  nodup := h.nodup.sublist (List.sublist_append_right _ _)
  disjoint x hx := by
    rw [List.mem_append, not_or]
    exact ⟨h.disjoint x (List.mem_append_right _ hx),
      fun hx' => List.disjoint_of_nodup_append h.nodup hx' hx⟩
  unmentioned x hx hmem := by
    refine h.unmentioned x ?_ (.body hmem)
    simp only [List.mem_append] at hx ⊢
    exact or_assoc.1 hx
  outside x hx := by
    by_cases hps : x ∈ ps.names
    · by_cases hne : τ x = x
      · exact .inl hne
      · exact .inr (List.mem_append_right _ (Params.mem_newNames hps hne))
    · rw [hτ x hps]
      exact (h.outside x (.body hps hx)).imp_right (List.mem_append_left _)
  means x hx := by
    refine beneath_map (fun a ha hax => ?_) fun hps => ?_
    · exact h.eq_of_rename_eq hτ hx (List.mem_reverse.1 ha) hax
    · rw [List.mem_reverse] at hps
      rw [hτ x hps]
      exact h.means x (.body hps hx)

/-- A renaming that makes a choice of names leads to a form that differs in nothing else. -/
theorem Renames.alpha (h : Renames σ new form form') (hchoice : Chooses R σ old new form) :
    Alpha R form form' := by
  induction h generalizing R old with
  | nil σ => exact .nil
  | number σ x => exact .number x
  | text σ s => exact .text s
  | symbol σ x => exact .symbol (hchoice.means x .symbol)
  | @guard σ new₁ new₂ _ _ _ _ _ _ iht ihc =>
    refine .guard (iht (hchoice.part ?_ (fun _ => .test) fun _ => .test))
      (ihc (hchoice.part ?_ (fun _ => .consequent) fun _ => .consequent))
    · exact List.sublist_append_left new₁ new₂
    · exact List.sublist_append_right new₁ new₂
  | @branch σ new₁ new₂ new₃ _ _ _ _ _ _ _ _ _ iht ihc iha =>
    have hrest := List.sublist_append_right new₁ (new₂ ++ new₃)
    refine .branch (iht (hchoice.part ?_ (fun _ => .test) fun _ => .test))
      (ihc (hchoice.part ?_ (fun _ => .consequent) fun _ => .consequent))
      (iha (hchoice.part ?_ (fun _ => .alternative) fun _ => .alternative))
    · exact List.sublist_append_left new₁ (new₂ ++ new₃)
    · exact (List.sublist_append_left new₂ new₃).trans hrest
    · exact (List.sublist_append_right new₂ new₃).trans hrest
  | lambda hτ _ ih => exact .lambda (ih (hchoice.body hτ))
  | @call σ new news operator operator' operands operands' _ hnews hlength _ ih ihs =>
    refine .call (ih (hchoice.part ?_ (fun _ => .operator) fun _ => .operator)) hlength.symm ?_
    · exact List.sublist_append_left new news.flatten
    · intro p hp
      obtain ⟨i, hi, rfl⟩ := List.mem_iff_getElem.1 hp
      obtain ⟨hi, hi'⟩ : i < operands.length ∧ i < operands'.length := by
        rw [List.length_zip] at hi
        exact Nat.lt_min.1 hi
      have hmem : (operands[i], news[i], operands'[i]) ∈ operands.zip (news.zip operands') :=
        List.mem_iff_getElem.2 ⟨i, by simp; omega, by simp⟩
      have hpart : news[i].Sublist (new ++ news.flatten) :=
        (List.sublist_flatten_of_mem (List.getElem_mem _)).trans (List.sublist_append_right _ _)
      rw [List.getElem_zip]
      exact ihs _ hmem (hchoice.part hpart (fun _ => .operand (List.getElem_mem hi))
        fun _ => .operand (List.getElem_mem hi))

/-- **Renaming parameters to new names is a choice of names.** -/
theorem RenamedTo.alpha (h : form.RenamedTo form') (hR : ∀ x, R x x) : Alpha R form form' := by
  obtain ⟨new, hnew, hnodup, hmentions⟩ := h
  have hchoice : Chooses R id [] new form :=
    { nodup := hnodup
      disjoint := fun x _ => List.not_mem_nil
      unmentioned := fun x hx => hmentions x (hx.resolve_left List.not_mem_nil)
      outside := fun x _ => .inl rfl
      means := fun x _ => hR x }
  exact hnew.alpha hchoice

end Form

end OutlineLisp
