import Mathlib.Data.List.Find
import Mathlib.Data.List.GetD
import OutlineLisp.Proofs.Tree.Forest

/-!
# Walking through trees in preorder

A walk visits a node and then what is below it, from left to right. It says of a tree which nodes it
has and in which order, and the places of the parents in the walk say the rest.

The walk through a forest visits the bullets in their order, and the parent of an item is the last
one before it that is shallower. The second fact comes from the first with a shift of places: what
is deeper than a bullet has the places of its own parents shifted by one, and the bullet's place
where it had none; what follows is not deeper than the bullet's level, so nothing in between can be
its parent.

## Main definitions

* `Node.walk`, `Node.walkAll`: the nodes of a tree, and of trees, in preorder.
* `Node.parents`, `Node.parentsAll`: the places of their parents.
* `lastBelow`, `enclosing`: the last smaller one of some indents, and that of each.

## Main results

* `Node.walkAll_forest`: the walk through a forest visits its bullets.
* `Node.parentsAll_forest`: where the parents are.
* `Node.indent_lt_of_mem_walkAll_forest`: children are deeper than their parents.
-/

namespace OutlineLisp

/-! ### The last smaller one -/

/-- The place of the last of some indents that is smaller than `x`. -/
def lastBelow (x : Nat) (indents : List Nat) : Option Nat :=
  (List.range indents.length).reverse.find? fun i => indents.getD i 0 < x

/-- For each of some indents, the place of the last one before it that is smaller. The places also
count the indents in front, which are `earlier`. -/
def enclosing (earlier : List Nat) : List Nat → List (Option Nat)
  | [] => []
  | x :: xs => lastBelow x earlier :: enclosing (earlier ++ [x]) xs

@[simp] theorem lastBelow_nil (x : Nat) : lastBelow x [] = none := rfl

theorem lastBelow_append (x : Nat) (xs ys : List Nat) :
    lastBelow x (xs ++ ys) = ((lastBelow x ys).map (xs.length + ·)).or (lastBelow x xs) := by
  have hleft : (List.range xs.length).reverse.find? (fun i => (xs ++ ys).getD i 0 < x)
      = lastBelow x xs := by
    refine List.find?_congr fun i hi => ?_
    rw [List.mem_reverse, List.mem_range] at hi
    rw [List.getD_append _ _ _ _ hi]
  have hright : (List.range ys.length).reverse.find?
      ((fun i => decide ((xs ++ ys).getD i 0 < x)) ∘ (xs.length + ·)) = lastBelow x ys := by
    refine List.find?_congr fun i _ => ?_
    rw [Function.comp_apply, List.getD_append_right _ _ _ _ (Nat.le_add_right _ _),
      Nat.add_sub_cancel_left]
  rw [lastBelow, List.length_append, List.range_add, List.reverse_append, List.find?_append, hleft,
    ← List.map_reverse, List.find?_map, hright]

theorem lastBelow_eq_none_iff {x : Nat} {xs : List Nat} :
    lastBelow x xs = none ↔ ∀ y ∈ xs, x ≤ y := by
  rw [lastBelow, List.find?_eq_none]
  constructor
  · intro h y hy
    obtain ⟨i, hi, rfl⟩ := List.mem_iff_getElem.1 hy
    have := h i (by simpa using hi)
    rw [List.getD_eq_getElem _ _ hi] at this
    simpa using this
  · intro h i hi
    rw [List.mem_reverse, List.mem_range] at hi
    rw [List.getD_eq_getElem _ _ hi]
    simpa using h _ (List.getElem_mem hi)

theorem enclosing_append_left (front : List Nat) (c : Option Nat) (earlier xs : List Nat)
    (h : ∀ ys x zs, xs = ys ++ x :: zs → lastBelow x (earlier ++ ys) = none →
      lastBelow x front = c) :
    enclosing (front ++ earlier) xs
      = (enclosing earlier xs).map fun p => (p.map (front.length + ·)).or c := by
  induction xs generalizing earlier with
  | nil => rfl
  | cons x xs ih =>
    have hx : lastBelow x (front ++ earlier)
        = ((lastBelow x earlier).map (front.length + ·)).or c := by
      rw [lastBelow_append]
      cases hl : lastBelow x earlier with
      | some p => rfl
      | none => exact h [] x xs rfl (by rwa [List.append_nil])
    have hxs : enclosing (front ++ (earlier ++ [x])) xs
        = (enclosing (earlier ++ [x]) xs).map fun p => (p.map (front.length + ·)).or c := by
      refine ih _ fun ys y zs hyz hn => h (x :: ys) y zs (by rw [hyz, List.cons_append]) ?_
      rwa [List.append_assoc, List.singleton_append] at hn
    rw [enclosing, enclosing, List.map_cons, hx, List.append_assoc, hxs]

/-- Indents in front only shift the places, if they say the same, `c`, about every indent that has
no smaller one after them. -/
theorem enclosing_front (front : List Nat) (c : Option Nat) (xs : List Nat)
    (h : ∀ ys x zs, xs = ys ++ x :: zs → lastBelow x ys = none → lastBelow x front = c) :
    enclosing front xs = (enclosing [] xs).map fun p => (p.map (front.length + ·)).or c := by
  have := enclosing_append_left front c [] xs h
  rwa [List.append_nil] at this

theorem enclosing_append (earlier xs ys : List Nat) :
    enclosing earlier (xs ++ ys) = enclosing earlier xs ++ enclosing (earlier ++ xs) ys := by
  induction xs generalizing earlier with
  | nil => rw [List.append_nil]; rfl
  | cons x xs ih =>
    rw [List.cons_append, enclosing, enclosing, ih, List.append_assoc, List.singleton_append,
      List.cons_append]

theorem getElem?_enclosing (earlier xs : List Nat) (i : Nat) :
    (enclosing earlier xs)[i]? = xs[i]?.map fun x => lastBelow x (earlier ++ xs.take i) := by
  induction xs generalizing earlier i with
  | nil => rfl
  | cons x xs ih =>
    cases i with
    | zero => simp [enclosing]
    | succ i => simp [enclosing, ih]

/-! ### Walks -/

namespace Node

mutual

/-- A node and everything below it, in preorder. -/
def walk : Node → List Node
  | ⟨kind, value, children, indent, span⟩ =>
    ⟨kind, value, children, indent, span⟩ :: walkAll children

/-- Trees with everything below their roots, in preorder. -/
def walkAll : List Node → List Node
  | [] => []
  | n :: ns => walk n ++ walkAll ns

end

mutual

/-- The places in a walk of the parents of a tree's nodes, the tree having the given place and its
root the given parent. -/
def parents (parent : Option Nat) (place : Nat) : Node → List (Option Nat)
  | ⟨_, _, children, _, _⟩ => parent :: parentsAll (some place) (place + 1) children

/-- The places in a walk of the parents of trees' nodes, the walk through the trees beginning at the
given place and their roots having the given parent. -/
def parentsAll (parent : Option Nat) (place : Nat) : List Node → List (Option Nat)
  | [] => []
  | n :: ns => parents parent place n ++ parentsAll parent (place + (walk n).length) ns

end

@[simp] theorem walkAll_nil : walkAll [] = [] := rfl

theorem walk_eq (n : Node) : walk n = n :: walkAll n.children := by
  cases n
  rfl

theorem walkAll_cons (n : Node) (ns : List Node) :
    walkAll (n :: ns) = n :: (walkAll n.children ++ walkAll ns) := by
  rw [walkAll, walk_eq, List.cons_append]

/-- A walk over trees visits their roots. -/
theorem mem_walkAll_of_mem {n : Node} {ns : List Node} (h : n ∈ ns) : n ∈ walkAll ns := by
  induction h with
  | head ns =>
    rw [walkAll_cons]
    exact List.mem_cons_self
  | tail m _ ih =>
    rw [walkAll_cons]
    exact List.mem_cons_of_mem m (List.mem_append_right _ ih)

/-- What a walk over trees visits is a root or below one. -/
theorem exists_of_mem_walkAll {n : Node} {ns : List Node} (h : n ∈ walkAll ns) :
    ∃ m ∈ ns, n = m ∨ n ∈ walkAll m.children := by
  induction ns with
  | nil => cases h
  | cons m ns ih =>
    rw [walkAll_cons] at h
    rcases List.mem_cons.1 h with rfl | h
    · exact ⟨n, List.mem_cons_self, .inl rfl⟩
    · rcases List.mem_append.1 h with hbelow | hlater
      · exact ⟨m, List.mem_cons_self, .inr hbelow⟩
      · obtain ⟨m', hm', hn⟩ := ih hlater
        exact ⟨m', List.mem_cons_of_mem m hm', hn⟩

theorem parentsAll_cons (parent : Option Nat) (place : Nat) (n : Node) (ns : List Node) :
    parentsAll parent place (n :: ns)
      = parent :: (parentsAll (some place) (place + 1) n.children
        ++ parentsAll parent (place + 1 + (walkAll n.children).length) ns) := by
  rw [parentsAll, walk_eq, List.length_cons, Nat.add_assoc, Nat.add_comm 1]
  cases n
  rfl

/-- A node without its children. -/
def alone (n : Node) : Node := { n with children := [] }

@[simp] theorem alone_toNode (b : Bullet) (children : List Node) :
    (b.toNode children).alone = b.toNode [] := rfl

@[simp] theorem children_toNode (b : Bullet) (children : List Node) :
    (b.toNode children).children = children := rfl

/-! ### Walks through forests -/

/-- **The walk through a forest visits its bullets,** each once and in their order. -/
theorem map_alone_walkAll_forest (bs : List Bullet) :
    (walkAll (forest bs)).map alone = bs.map fun b => b.toNode [] := by
  induction bs using forest.induct with
  | case1 => rw [forest_nil]; rfl
  | case2 b bs ihDeeper ihNotDeeper =>
    rw [forest_cons, walkAll_cons, children_toNode, List.map_cons, List.map_append, ihDeeper,
      ihNotDeeper, alone_toNode, ← List.map_append, deeper_append_notDeeper, List.map_cons]

/-- A node of a forest is that of a bullet, its children apart. -/
theorem exists_alone_eq_of_mem_walkAll_forest {bs : List Bullet} {n : Node}
    (h : n ∈ walkAll (forest bs)) : ∃ b ∈ bs, b.toNode [] = n.alone := by
  have hmem : n.alone ∈ bs.map fun b => b.toNode [] := by
    rw [← map_alone_walkAll_forest]
    exact List.mem_map_of_mem h
  exact List.mem_map.1 hmem

/-- What a node of a forest says is read from a bullet. -/
theorem exists_read_of_mem_walkAll_forest {bs : List Bullet} {n : Node}
    (h : n ∈ walkAll (forest bs)) :
    ∃ b ∈ bs, n.kind = (Item.read b.content.toList).1 ∧
      n.value = some (Item.read b.content.toList).2 := by
  obtain ⟨b, hb, hn⟩ := exists_alone_eq_of_mem_walkAll_forest h
  have hkind : (b.toNode []).kind = n.alone.kind := by rw [hn]
  have hvalue : (b.toNode []).value = n.alone.value := by rw [hn]
  exact ⟨b, hb, hkind.symm, hvalue.symm⟩

/-- A node of a forest stands where a bullet stands. -/
theorem exists_span_eq_of_mem_walkAll_forest {bs : List Bullet} {n : Node}
    (h : n ∈ walkAll (forest bs)) : ∃ b ∈ bs, n.span = b.span := by
  obtain ⟨b, hb, hn⟩ := exists_alone_eq_of_mem_walkAll_forest h
  have hspan : (b.toNode []).span = n.alone.span := by rw [hn]
  exact ⟨b, hb, hspan.symm⟩

theorem length_walkAll_forest (bs : List Bullet) : (walkAll (forest bs)).length = bs.length := by
  have := congrArg List.length (map_alone_walkAll_forest bs)
  rwa [List.length_map, List.length_map] at this

/-- What is deeper than a bullet has the bullet as its parent where it has none of its own. -/
theorem enclosing_deeper (b : Bullet) (bs : List Bullet) :
    enclosing [b.indent] ((deeper b.indent bs).map Bullet.indent)
      = (enclosing [] ((deeper b.indent bs).map Bullet.indent)).map fun p =>
        (p.map (1 + ·)).or (some 0) := by
  refine enclosing_front [b.indent] (some 0) _ fun ys x zs hx _ => ?_
  have hmem : x ∈ (deeper b.indent bs).map Bullet.indent := by
    rw [hx]
    exact List.mem_append_right _ List.mem_cons_self
  obtain ⟨c, hc, rfl⟩ := List.mem_map.1 hmem
  have hlt : b.indent < c.indent := lt_indent_of_mem_deeper hc
  simp [lastBelow, hlt]

/-- What follows has no parent among a bullet and what is deeper than it: the first that follows is
not deeper than the bullet, and would be the parent of any that are. -/
theorem enclosing_notDeeper (b : Bullet) (bs : List Bullet) :
    enclosing (b.indent :: (deeper b.indent bs).map Bullet.indent)
        ((notDeeper b.indent bs).map Bullet.indent)
      = (enclosing [] ((notDeeper b.indent bs).map Bullet.indent)).map fun p =>
        (p.map (((deeper b.indent bs).length + 1) + ·)).or none := by
  rw [enclosing_front (b.indent :: (deeper b.indent bs).map Bullet.indent) none, List.length_cons,
    List.length_map]
  intro ys x zs hx hnone
  rw [lastBelow_eq_none_iff] at hnone ⊢
  -- the first that follows is at most as deep as `b`, and `x` is not deeper than that one
  have hle : x ≤ b.indent := by
    cases hN : notDeeper b.indent bs with
    | nil => rw [hN] at hx; cases ys <;> cases hx
    | cons c cs =>
      have hc : c.indent ≤ b.indent := indent_le_of_notDeeper hN
      rw [hN, List.map_cons] at hx
      cases ys with
      | nil =>
        obtain ⟨rfl, -⟩ := List.cons.inj hx
        exact hc
      | cons y ys =>
        obtain ⟨rfl, -⟩ := List.cons.inj hx
        exact (hnone _ List.mem_cons_self).trans hc
  intro y hy
  rcases List.mem_cons.1 hy with rfl | hy
  · exact hle
  · obtain ⟨c, hc, rfl⟩ := List.mem_map.1 hy
    exact hle.trans (lt_indent_of_mem_deeper hc).le

/-- **The parent of an item is the last shallower one before it.** -/
theorem parentsAll_forest (parent : Option Nat) (place : Nat) (bs : List Bullet) :
    parentsAll parent place (forest bs)
      = (enclosing [] (bs.map Bullet.indent)).map fun p => (p.map (place + ·)).or parent := by
  induction bs using forest.induct generalizing parent place with
  | case1 => rw [forest_nil]; rfl
  | case2 b bs ihDeeper ihNotDeeper =>
    have hsplit : enclosing [] ((b :: bs).map Bullet.indent)
        = none :: ((enclosing [b.indent] ((deeper b.indent bs).map Bullet.indent))
          ++ enclosing (b.indent :: (deeper b.indent bs).map Bullet.indent)
            ((notDeeper b.indent bs).map Bullet.indent)) := by
      rw [List.map_cons, enclosing, List.nil_append, lastBelow_nil]
      conv_lhs => rw [← deeper_append_notDeeper b.indent bs]
      rw [List.map_append, enclosing_append, List.singleton_append]
    rw [forest_cons, parentsAll_cons, children_toNode, ihDeeper, ihNotDeeper, length_walkAll_forest,
      hsplit, enclosing_deeper, enclosing_notDeeper, List.map_cons, List.map_append, List.map_map,
      List.map_map]
    congr 2
    · refine List.map_congr_left fun p _ => ?_
      cases p with
      | none => rfl
      | some i => simp; omega
    · refine List.map_congr_left fun p _ => ?_
      cases p with
      | none => rfl
      | some i => simp; omega

theorem mem_forest {bs : List Bullet} {n : Node} (h : n ∈ forest bs) :
    ∃ b ∈ bs, n.indent = b.indent := by
  induction bs using forest.induct with
  | case1 => rw [forest_nil] at h; cases h
  | case2 b bs _ ih =>
    rw [forest_cons] at h
    rcases List.mem_cons.1 h with rfl | h
    · exact ⟨b, List.mem_cons_self, rfl⟩
    · obtain ⟨c, hc, hn⟩ := ih h
      exact ⟨c, List.mem_cons_of_mem b (mem_of_mem_notDeeper hc), hn⟩

/-- **Children are deeper than their parents.** -/
theorem indent_lt_of_mem_walkAll_forest {bs : List Bullet} {n c : Node}
    (hn : n ∈ walkAll (forest bs)) (hc : c ∈ n.children) : n.indent < c.indent := by
  induction bs using forest.induct with
  | case1 => rw [forest_nil] at hn; cases hn
  | case2 b bs ihDeeper ihNotDeeper =>
    rw [forest_cons, walkAll_cons, children_toNode] at hn
    rcases List.mem_cons.1 hn with rfl | hn
    · obtain ⟨d, hd, hind⟩ := mem_forest hc
      rw [hind]
      exact lt_indent_of_mem_deeper hd
    · rcases List.mem_append.1 hn with hn | hn
      · exact ihDeeper hn
      · exact ihNotDeeper hn

end Node

end OutlineLisp
