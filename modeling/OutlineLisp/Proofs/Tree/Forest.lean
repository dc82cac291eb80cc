import OutlineLisp.Proofs.Runs
import OutlineLisp.Tree.Builder

/-!
# The forest of a section

The bullets of a section form trees by their indentation alone: what follows a bullet at a deeper
level belongs to it, up to the next bullet that is not deeper. Levels may be skipped, and a bullet
that is shallower than everything before it simply starts a new tree. `Node.forest` is this
description as a recursion, which looks ahead where a draft remembers what is open.

A draft builds exactly these trees. The reason is that closing can wait: to close down to one level
and later down to a shallower one is to close down to the shallower one at once. So the bullets that
are deeper than some bullet may be seen as completed before the next one is read.

## Main definitions

* `Node.forest`: the trees that bullets form.
* `Draft.Shallower`: no open item is at a level or deeper, as far as the innermost one tells.

## Main results

* `Draft.close_close`: closing in two stages.
* `Draft.finish_foldl_add`: a draft builds the forest of its bullets.
-/

namespace OutlineLisp

namespace Node

/-- The bullets at the start that are deeper than a level. -/
def deeper (level : Nat) (bs : List Bullet) : List Bullet :=
  bs.takeWhile fun b => level < b.indent

/-- What follows the bullets at the start that are deeper than a level. -/
def notDeeper (level : Nat) (bs : List Bullet) : List Bullet :=
  bs.dropWhile fun b => level < b.indent

theorem deeper_append_notDeeper (level : Nat) (bs : List Bullet) :
    deeper level bs ++ notDeeper level bs = bs := List.takeWhile_append_dropWhile

theorem length_deeper_le (level : Nat) (bs : List Bullet) :
    (deeper level bs).length ≤ bs.length := by
  have := congrArg List.length (deeper_append_notDeeper level bs)
  rw [List.length_append] at this
  omega

theorem length_notDeeper_le (level : Nat) (bs : List Bullet) :
    (notDeeper level bs).length ≤ bs.length := by
  have := congrArg List.length (deeper_append_notDeeper level bs)
  rw [List.length_append] at this
  omega

theorem lt_indent_of_mem_deeper {level : Nat} {bs : List Bullet} {b : Bullet}
    (h : b ∈ deeper level bs) : level < b.indent :=
  of_decide_eq_true (List.all_eq_true.1 List.all_takeWhile b h)

theorem mem_of_mem_notDeeper {level : Nat} {bs : List Bullet} {b : Bullet}
    (h : b ∈ notDeeper level bs) : b ∈ bs := by
  rw [← deeper_append_notDeeper level bs]
  exact List.mem_append_right _ h

theorem indent_le_of_notDeeper {level : Nat} {bs cs : List Bullet} {b : Bullet}
    (h : notDeeper level bs = b :: cs) : b.indent ≤ level := by
  have hstops := stops_dropWhile (fun b : Bullet => decide (level < b.indent)) bs b
    (by rw [← notDeeper, h]; rfl)
  exact Nat.not_lt.1 (of_decide_eq_false hstops)

/-- The trees that bullets form by their indentation. -/
def forest : List Bullet → List Node
  | [] => []
  | b :: bs => b.toNode (forest (deeper b.indent bs)) :: forest (notDeeper b.indent bs)
termination_by bs => bs.length
decreasing_by
  · exact Nat.lt_succ_of_le (length_deeper_le _ _)
  · exact Nat.lt_succ_of_le (length_notDeeper_le _ _)

@[simp] theorem forest_nil : forest [] = [] := by
  rw [forest]

theorem forest_cons (b : Bullet) (bs : List Bullet) :
    forest (b :: bs)
      = b.toNode (forest (deeper b.indent bs)) :: forest (notDeeper b.indent bs) := by
  rw [forest]

theorem forest_eq_nil_iff {bs : List Bullet} : forest bs = [] ↔ bs = [] := by
  cases bs with
  | nil => simp
  | cons b bs => simp [forest_cons]

end Node

namespace Draft

open Node

/-! ### Hanging nodes into a draft -/

theorem foldl_hang_nil (trees ns : List Node) :
    ns.foldl hang ⟨trees, []⟩ = ⟨trees ++ ns, []⟩ := by
  induction ns generalizing trees with
  | nil => simp
  | cons n ns ih =>
    rw [List.foldl_cons, hang, ih, List.append_assoc, List.singleton_append]

theorem foldl_hang_cons (trees : List Node) (item : Node) (opened ns : List Node) :
    ns.foldl hang ⟨trees, item :: opened⟩
      = ⟨trees, { item with children := item.children ++ ns } :: opened⟩ := by
  induction ns generalizing item with
  | nil => cases item; rw [List.append_nil]; rfl
  | cons n ns ih =>
    rw [List.foldl_cons, hang, ih, List.append_assoc, List.singleton_append]

/-! ### Closing -/

/-- The innermost open item, if there is one, is shallower than a level. -/
def Shallower (level : Nat) (d : Draft) : Prop := ∀ item ∈ d.opened.head?, item.indent < level

theorem Shallower.mono {i j : Nat} {d : Draft} (h : Shallower i d) (hij : i ≤ j) :
    Shallower j d :=
  fun item hitem => Nat.lt_of_lt_of_le (h item hitem) hij

theorem Shallower.hang {level : Nat} {d : Draft} (h : Shallower level d) (n : Node) :
    Shallower level (d.hang n) := by
  obtain ⟨trees, opened⟩ := d
  cases opened with
  | nil => exact h
  | cons item opened =>
    intro item' hitem
    obtain rfl := Option.some.inj hitem
    exact h item rfl

theorem shallower_cons {level : Nat} {item : Node} (h : item.indent < level)
    (trees opened : List Node) : Shallower level ⟨trees, item :: opened⟩ := by
  intro item' hitem
  obtain rfl := Option.some.inj hitem
  exact h

theorem close_of_shallower {level : Nat} {d : Draft} (h : Shallower level d) :
    close level d = d := by
  obtain ⟨trees, opened⟩ := d
  cases opened with
  | nil => rw [close]
  | cons item opened => rw [close, if_neg (Nat.not_le.2 (h item rfl))]

theorem close_cons {level : Nat} {item : Node} (h : level ≤ item.indent)
    (trees opened : List Node) :
    close level ⟨trees, item :: opened⟩ = close level (hang ⟨trees, opened⟩ item) := by
  rw [close, if_pos h]

/-- **Closing can be done in stages.** -/
theorem close_close {i j : Nat} (hij : i ≤ j) (d : Draft) : close i (close j d) = close i d := by
  fun_induction close j d with
  | case1 => rfl
  | case2 trees item opened h ih => rw [ih, close_cons (Nat.le_trans hij h)]
  | case3 => rfl

/-- A bullet closes what it closes, whether or not some of it has been closed before. -/
theorem add_close {level : Nat} {b : Bullet} (h : b.indent ≤ level) (d : Draft) :
    add (close level d) b = add d b := by
  rw [add, add, close_close h]

theorem close_foldl_add_close {i j : Nat} (hij : i ≤ j) {bs : List Bullet}
    (hbs : ∀ b ∈ bs.head?, b.indent ≤ j) (d : Draft) :
    close i (bs.foldl add (close j d)) = close i (bs.foldl add d) := by
  cases bs with
  | nil => exact close_close hij d
  | cons b bs => rw [List.foldl_cons, List.foldl_cons, add_close (hbs b rfl)]

/-! ### What a draft builds -/

theorem add_of_shallower {b : Bullet} {d : Draft} (h : Shallower b.indent d) :
    add d b = ⟨d.trees, b.toNode [] :: d.opened⟩ := by
  rw [add, close_of_shallower h]

/-- Bullets that are all at a level or deeper hang their forest into a draft whose innermost item is
shallower, once they are closed. The induction is that of the forest. -/
theorem close_foldl_add {level : Nat} {bs : List Bullet} (hbs : ∀ b ∈ bs, level ≤ b.indent)
    {d : Draft} (hd : Shallower level d) :
    close level (bs.foldl add d) = (forest bs).foldl hang d := by
  induction bs using forest.induct generalizing level d with
  | case1 => rw [forest_nil]; exact close_of_shallower hd
  | case2 b bs ihDeeper ihNotDeeper =>
    have hb : level ≤ b.indent := hbs b List.mem_cons_self
    have hdb : Shallower b.indent d := hd.mono hb
    have hopen : Shallower (b.indent + 1) ⟨d.trees, b.toNode [] :: d.opened⟩ :=
      shallower_cons (Nat.lt_succ_self _) _ _
    -- the deeper bullets complete the item of `b`, and closing it hangs it into `d`
    have hitem : close b.indent ((deeper b.indent bs).foldl add (add d b))
        = hang d (b.toNode (forest (deeper b.indent bs))) := by
      rw [← close_close (Nat.le_succ _), add_of_shallower hdb,
        ihDeeper (fun _ h => lt_indent_of_mem_deeper h) hopen, foldl_hang_cons]
      show close b.indent ⟨d.trees, b.toNode (forest (deeper b.indent bs)) :: d.opened⟩ = _
      have hle : b.indent ≤ (b.toNode (forest (deeper b.indent bs))).indent := Nat.le_refl _
      rw [close_cons hle]
      exact close_of_shallower (hdb.hang _)
    have hnext : ∀ c ∈ (notDeeper b.indent bs).head?, c.indent ≤ b.indent := by
      intro c hc
      obtain ⟨cs, hcs⟩ := List.head?_eq_some_iff.1 hc
      exact indent_le_of_notDeeper hcs
    have hrest : ∀ c ∈ notDeeper b.indent bs, level ≤ c.indent := fun c hc =>
      hbs c (List.mem_cons_of_mem b (mem_of_mem_notDeeper hc))
    calc close level ((b :: bs).foldl add d)
        = close level ((notDeeper b.indent bs).foldl add
            ((deeper b.indent bs).foldl add (add d b))) := by
          rw [← List.foldl_append, deeper_append_notDeeper, List.foldl_cons]
      _ = close level ((notDeeper b.indent bs).foldl add
            (hang d (b.toNode (forest (deeper b.indent bs))))) := by
          rw [← close_foldl_add_close hb hnext, hitem]
      _ = (forest (b :: bs)).foldl hang d := by
          rw [ihNotDeeper hrest (hd.hang _), forest_cons, List.foldl_cons]

/-- **A draft builds the forest of its bullets.** -/
theorem finish_foldl_add (bs : List Bullet) : (bs.foldl add {}).finish = forest bs := by
  have h : Shallower 0 {} := by intro item hitem; cases hitem
  rw [finish, close_foldl_add (fun _ _ => Nat.zero_le _) h, foldl_hang_nil, List.nil_append]

end Draft

end OutlineLisp
