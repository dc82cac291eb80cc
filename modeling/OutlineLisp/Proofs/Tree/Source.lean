import OutlineLisp.Proofs.Tree.Written

/-!
# Source texts of programs

Every well-formed program has a source text. A definition is a heading, and the items below it
follow in preorder, each indented by its depth. The text reads back as the program, up to positions
and with every item at the level of its depth: whatever the shapes of the trees are, the items that
are deeper than some item are just those below it.

So the well-formed programs are exactly those that can be read.

## Main definitions

* `Node.leveled`: the nodes of a tree in preorder, with their depths.
* `Node.source`: the source text of a program.
* `Node.settled`: a program with every item at the level of its depth.

## Main results

* `Outline.ofLines_flatMap_lines`: an outline is read from the lines of its sections.
* `Node.bareAll_forest_leveledAll`: trees are read from their nodes and depths.
* `Reading.ofSource_wellFormed_iff`: the programs that can be read.
-/

namespace OutlineLisp

/-! ### Lines of sections -/

/-- The line of a bullet. -/
def Bullet.toLine (b : Bullet) : Line :=
  { kind := .bullet b.content, indent := b.indent, span := b.span }

/-- The line of a heading. -/
def Heading.toLine (h : Heading) : Line :=
  { kind := .heading h.name, indent := 0, span := h.span }

/-- The lines of a section. -/
def Section.lines (s : Section) : List Line := s.heading.toLine :: s.bullets.map Bullet.toLine

namespace Outline

theorem ofLines_bullets_append (bs : List Bullet) (lines : List Line) :
    ofLines (bs.map Bullet.toLine ++ lines)
      = ⟨bs ++ (ofLines lines).strays, (ofLines lines).sections⟩ := by
  induction bs with
  | nil => rfl
  | cons b bs ih => rw [List.map_cons, List.cons_append, ofLines_cons, ih]; rfl

/-- An outline is read from the lines of its sections. -/
theorem ofLines_flatMap_lines (sections : List Section) :
    ofLines (sections.flatMap Section.lines) = ⟨[], sections⟩ := by
  induction sections with
  | nil => rfl
  | cons s sections ih =>
    rw [List.flatMap_cons, Section.lines, List.cons_append, ofLines_cons, ofLines_bullets_append,
      ih, List.append_nil]
    rfl

end Outline

namespace Node

/-! ### Depths -/

mutual

/-- A node and everything below it in preorder, with the depths. -/
def leveled (depth : Nat) : Node → List (Nat × Node)
  | ⟨kind, value, children, indent, span⟩ =>
    (depth, ⟨kind, value, children, indent, span⟩) :: leveledAll (depth + 1) children

/-- Trees with everything below their roots in preorder, with the depths. -/
def leveledAll (depth : Nat) : List Node → List (Nat × Node)
  | [] => []
  | n :: ns => leveled depth n ++ leveledAll depth ns

end

@[simp] theorem leveledAll_nil (depth : Nat) : leveledAll depth [] = [] := rfl

theorem leveledAll_cons (depth : Nat) (n : Node) (ns : List Node) :
    leveledAll depth (n :: ns)
      = (depth, n) :: (leveledAll (depth + 1) n.children ++ leveledAll depth ns) := by
  rw [leveledAll]
  cases n
  rfl

/-- Without the depths this is the walk. -/
theorem map_snd_leveledAll (depth : Nat) (ns : List Node) :
    (leveledAll depth ns).map Prod.snd = walkAll ns := by
  match ns with
  | [] => rfl
  | ⟨kind, value, children, indent, span⟩ :: ns =>
    rw [leveledAll_cons, walkAll_cons, List.map_cons, List.map_append,
      map_snd_leveledAll (depth + 1) children, map_snd_leveledAll depth ns]

theorem mem_walkAll_of_mem_leveledAll {depth : Nat} {ns : List Node} {p : Nat × Node}
    (h : p ∈ leveledAll depth ns) : p.2 ∈ walkAll ns := by
  rw [← map_snd_leveledAll depth]
  exact List.mem_map_of_mem h

theorem le_of_mem_leveledAll {depth : Nat} {ns : List Node} {p : Nat × Node}
    (h : p ∈ leveledAll depth ns) : depth ≤ p.1 := by
  match ns with
  | [] => cases h
  | ⟨kind, value, children, indent, span⟩ :: ns =>
    rw [leveledAll_cons] at h
    rcases List.mem_cons.1 h with rfl | h
    · exact Nat.le_refl _
    · rcases List.mem_append.1 h with h | h
      · exact Nat.le_of_succ_le (le_of_mem_leveledAll h)
      · exact le_of_mem_leveledAll h

theorem fst_of_mem_head?_leveledAll {depth : Nat} {ns : List Node} {p : Nat × Node}
    (h : p ∈ (leveledAll depth ns).head?) : p.1 = depth := by
  cases ns with
  | nil => cases h
  | cons n ns =>
    rw [leveledAll_cons] at h
    obtain rfl := Option.some.inj h
    rfl

/-! ### Trees from depths -/

/-- The bullet of a node at a depth, with the marker that the line leaves to the item. -/
def toBullet (p : Nat × Node) : Bullet :=
  { content := String.ofList (Item.marked (Item.write p.2.kind p.2.value))
    indent := p.1, span := {} }

theorem deeper_append {level : Nat} {bs cs : List Bullet} (hbs : ∀ b ∈ bs, level < b.indent)
    (hcs : ∀ c ∈ cs.head?, c.indent ≤ level) : deeper level (bs ++ cs) = bs :=
  takeWhile_append_eq (fun b hb => decide_eq_true (hbs b hb))
    fun c hc => decide_eq_false (Nat.not_lt.2 (hcs c hc))

theorem notDeeper_append {level : Nat} {bs cs : List Bullet} (hbs : ∀ b ∈ bs, level < b.indent)
    (hcs : ∀ c ∈ cs.head?, c.indent ≤ level) : notDeeper level (bs ++ cs) = cs :=
  dropWhile_append_eq (fun b hb => decide_eq_true (hbs b hb))
    fun c hc => decide_eq_false (Nat.not_lt.2 (hcs c hc))

mutual

/-- A tree with every node at the level of its depth. -/
def settle (depth : Nat) : Node → Node
  | ⟨kind, value, children, _, span⟩ => ⟨kind, value, settleAll (depth + 1) children, depth, span⟩

/-- Trees with every node at the level of its depth. -/
def settleAll (depth : Nat) : List Node → List Node
  | [] => []
  | n :: ns => settle depth n :: settleAll depth ns

end

theorem settleAll_cons (depth : Nat) (n : Node) (ns : List Node) :
    settleAll depth (n :: ns) = settle depth n :: settleAll depth ns := rfl

theorem settle_eq (depth : Nat) (n : Node) :
    settle depth n
      = { n with children := settleAll (depth + 1) n.children, indent := depth } := by
  cases n
  rfl

theorem map_said_walkAll_settleAll (depth : Nat) (ns : List Node) :
    (walkAll (settleAll depth ns)).map said = (walkAll ns).map said := by
  match ns with
  | [] => rfl
  | ⟨kind, value, children, indent, span⟩ :: ns =>
    rw [settleAll_cons, walkAll_cons, walkAll_cons, settle_eq, List.map_cons, List.map_cons,
      List.map_append, List.map_append, map_said_walkAll_settleAll (depth + 1) children,
      map_said_walkAll_settleAll depth ns]
    rfl

/-- The node of a bullet is the node that the bullet was made of. -/
theorem bare_toNode_toBullet {depth : Nat} {n : Node} (h : Item.WellFormed n.kind n.value)
    {children : List Node}
    (hchildren : bareAll children = bareAll (settleAll (depth + 1) n.children)) :
    ((toBullet (depth, n)).toNode children).bare = (settle depth n).bare := by
  obtain ⟨kind, value, ns, indent, span⟩ := n
  cases value with
  | none => cases h
  | some a =>
    have hread : Item.read (toBullet (depth, ⟨kind, some a, ns, indent, span⟩)).content.toList
        = (kind, a) := by
      rw [toBullet, String.toList_ofList, Item.read_marked_write h]
    rw [bare_eq, bare_eq, Bullet.toNode, hread, hchildren]
    rfl

/-- **Trees are read from their nodes and depths.** -/
theorem bareAll_forest_leveledAll (depth : Nat) (ns : List Node)
    (h : ∀ n ∈ walkAll ns, Item.WellFormed n.kind n.value) :
    bareAll (forest ((leveledAll depth ns).map toBullet)) = bareAll (settleAll depth ns) := by
  match ns with
  | [] => rw [leveledAll_nil, List.map_nil, forest_nil]; rfl
  | ⟨kind, value, children, indent, span⟩ :: ns =>
    rw [walkAll_cons] at h
    have hchildren := bareAll_forest_leveledAll (depth + 1) children fun m hm =>
      h m (List.mem_cons_of_mem _ (List.mem_append_left _ hm))
    have hns := bareAll_forest_leveledAll depth ns fun m hm =>
      h m (List.mem_cons_of_mem _ (List.mem_append_right _ hm))
    -- just the items below the first node are deeper than it
    have hdeep : ∀ b ∈ (leveledAll (depth + 1) children).map toBullet, depth < b.indent := by
      intro b hb
      obtain ⟨p, hp, rfl⟩ := List.mem_map.1 hb
      exact le_of_mem_leveledAll hp
    have hnext : ∀ b ∈ ((leveledAll depth ns).map toBullet).head?, b.indent ≤ depth := by
      intro b hb
      rw [List.head?_map] at hb
      obtain ⟨p, hp, rfl⟩ := Option.map_eq_some_iff.1 hb
      exact (fst_of_mem_head?_leveledAll hp).le
    have hindent (n : Node) : (toBullet (depth, n)).indent = depth := rfl
    rw [leveledAll_cons, List.map_cons, List.map_append, forest_cons, hindent,
      deeper_append hdeep hnext, notDeeper_append hdeep hnext, bareAll_cons, settleAll_cons,
      bareAll_cons, hns, bare_toNode_toBullet (h _ List.mem_cons_self) hchildren]

/-! ### Source texts -/

/-- The name of a definition. -/
def name (d : Node) : String := d.text?.getD ""

/-- The lines of a definition. -/
def definitionLines (d : Node) : List (List Char) :=
  Heading.line d.name.toList
    :: (leveledAll 0 d.children).map fun p => Item.line p.1 p.2.kind p.2.value

/-- The lines of a program. -/
def sourceLines (p : Node) : List (List Char) := p.children.flatMap definitionLines

/-- The source text of a program. -/
def source (p : Node) : String := String.ofList (Document.unlines p.sourceLines)

/-- A definition with every item at the level of its depth. -/
def settledDefinition (d : Node) : Node :=
  { d with children := settleAll 0 d.children, indent := 0 }

/-- A program with every item at the level of its depth. -/
def settled (p : Node) : Node :=
  { p with children := p.children.map settledDefinition, indent := 0 }

theorem wellFormed_settled_iff {p : Node} : p.settled.WellFormed ↔ p.WellFormed :=
  wellFormed_congr rfl rfl fun d _ =>
    wellFormedDefinition_congr rfl (map_said_walkAll_settleAll 0 d.children)

/-- The section that the lines of a definition form. -/
def toSection (d : Node) : Section :=
  { heading := { name := d.name, span := {} }
    bullets := (leveledAll 0 d.children).map toBullet }

namespace WellFormedDefinition

variable {d : Node}

theorem value_eq (h : d.WellFormedDefinition) : d.value = some (.text d.name) := by
  obtain ⟨s, hs, -⟩ := h.name
  rw [Node.name, text?, hs]
  rfl

theorem tidy_name (h : d.WellFormedDefinition) : Text.Tidy d.name.toList := by
  obtain ⟨s, hs, htidy⟩ := h.name
  rw [Node.name, text?, hs]
  exact htidy

theorem item (h : d.WellFormedDefinition) {p : Nat × Node} (hp : p ∈ leveledAll 0 d.children) :
    Item.WellFormed p.2.kind p.2.value :=
  h.items p.2 (mem_walkAll_of_mem_leveledAll hp)

/-- A definition is read from its section. -/
theorem bare_toNode_toSection (h : d.WellFormedDefinition) :
    d.toSection.toNode.bare = d.settledDefinition.bare := by
  have hchildren : bareAll d.toSection.toNode.children = bareAll (settleAll 0 d.children) :=
    bareAll_forest_leveledAll 0 d.children h.items
  rw [bare_eq, bare_eq, hchildren, settledDefinition, h.kind, h.value_eq]
  rfl

/-- The section is read from the lines. -/
theorem filterMap_definitionLines (h : d.WellFormedDefinition) :
    d.definitionLines.filterMap Line.bareOfRaw? = d.toSection.lines := by
  have hitems : ((leveledAll 0 d.children).map fun p => Item.line p.1 p.2.kind p.2.value).filterMap
      Line.bareOfRaw? = d.toSection.bullets.map Bullet.toLine := by
    rw [List.filterMap_map, toSection, List.map_map, ← List.filterMap_eq_map]
    exact List.filterMap_congr fun p hp => Item.bareOfRaw?_line p.1 (h.item hp)
  rw [definitionLines, List.filterMap_cons_some (Heading.bareOfRaw?_line h.tidy_name), hitems,
    String.ofList_toList]
  rfl

theorem of_mem_definitionLines (h : d.WellFormedDefinition) {l : List Char}
    (hl : l ∈ d.definitionLines) : '\n' ∉ l ∧ Document.NoReturn l := by
  rcases List.mem_cons.1 hl with rfl | hl
  · exact ⟨Heading.newline_notMem_line h.tidy_name, Heading.noReturn_line h.tidy_name⟩
  · obtain ⟨p, hp, rfl⟩ := List.mem_map.1 hl
    exact ⟨Item.newline_notMem_line p.1 (h.item hp), Item.noReturn_line p.1 (h.item hp)⟩

end WellFormedDefinition

namespace WellFormed

variable {p : Node}

theorem filterMap_sourceLines (h : p.WellFormed) :
    p.sourceLines.filterMap Line.bareOfRaw? = (p.children.map toSection).flatMap Section.lines := by
  rw [sourceLines, List.filterMap_flatMap, List.flatMap_map]
  exact List.flatMap_congr fun d hd => (h.definitions d hd).filterMap_definitionLines

theorem lines_source (h : p.WellFormed) (name : String) :
    Document.lines ⟨name, p.source⟩ = p.sourceLines ++ [[]] := by
  refine Document.lines_unlines name fun l hl => ?_
  obtain ⟨d, hd, hl⟩ := List.mem_flatMap.1 hl
  exact (h.definitions d hd).of_mem_definitionLines hl

/-- **The source text of a program** reads back as the program, if all its lines are read. -/
theorem bare_program_source (h : p.WellFormed) {name : String}
    (hlines : Document.lineCount ⟨name, p.source⟩ < UInt32.size) :
    (Reading.ofDocument ⟨name, p.source⟩).program.bare = p.settled.bare := by
  have hblank : [[]].filterMap Line.bareOfRaw? = [] := rfl
  have hchildren : bareAll ((p.children.map toSection).map Section.toNode)
      = bareAll (p.children.map settledDefinition) := by
    rw [bareAll_eq_map, bareAll_eq_map, List.map_map, List.map_map, List.map_map]
    exact List.map_congr_left fun d hd => (h.definitions d hd).bare_toNode_toSection
  rw [Reading.bare_program_ofDocument, Document.scanned_eq_lines hlines, h.lines_source,
    List.filterMap_append, hblank,
    List.append_nil, h.filterMap_sourceLines, Outline.ofLines_flatMap_lines, bare_eq, bare_eq,
    Outline.program, settled, hchildren, h.kind, h.value]

end WellFormed

end Node

namespace Reading

/-- **The programs that can be read** are the well-formed ones: every program that is read is
well-formed, and a program is well-formed exactly if its source text reads back as the program, with
every item at the level of its depth and up to positions. To be read back, the source text must not
have more lines than there are numbers. -/
theorem ofSource_wellFormed_iff :
    (∀ source : String, (ofSource source).program.WellFormed) ∧
      ∀ p : Node,
        (Document.lineCount ⟨sourceName, p.source⟩ < UInt32.size → p.WellFormed →
          (ofSource p.source).program.bare = p.settled.bare) ∧
        ((ofSource p.source).program.bare = p.settled.bare → p.WellFormed) := by
  have hread (source : String) : (ofSource source).program.WellFormed :=
    wellFormed_ofDocument ⟨sourceName, source⟩
  refine ⟨hread, fun p => ⟨fun hlines h => h.bare_program_source hlines, fun h => ?_⟩⟩
  rw [← Node.wellFormed_settled_iff, ← Node.wellFormed_bare_iff, ← h, Node.wellFormed_bare_iff]
  exact hread p.source

/-- A program with one definition, in which a lone marker is applied to a name. -/
def negation : Node :=
  { kind := .program
    children := [
      { kind := .definition
        value := some (.text "negate")
        children := [
          { kind := .symbol
            value := some (.text "-")
            children := [{ kind := .symbol, value := some (.text "x") }] }] }] }

theorem ofSource_source_negation :
    Document.lineCount ⟨sourceName, negation.source⟩ < UInt32.size ∧ negation.WellFormed ∧
      (ofSource negation.source).program.bare = negation.settled.bare := by
  have hmarker : Item.WellFormed .symbol (some (.text "-")) :=
    .name ⟨by decide, by decide⟩ (by decide) (Item.literal?_eq_none_iff.1 (by decide))
  have hname : Item.WellFormed .symbol (some (.text "x")) :=
    .name ⟨by decide, by decide⟩ (by decide) (Item.literal?_eq_none_iff.1 (by decide))
  have h : negation.WellFormed :=
    { kind := rfl
      value := rfl
      definitions := List.forall_mem_singleton.2
        { kind := rfl
          name := ⟨"negate", rfl, by decide, by decide⟩
          items := List.forall_mem_cons.2 ⟨hmarker, List.forall_mem_singleton.2 hname⟩ } }
  have hlines : Document.lineCount ⟨sourceName, negation.source⟩ < UInt32.size := by
    rw [Document.lineCount_eq, h.lines_source]
    decide
  exact ⟨hlines, h, (ofSource_wellFormed_iff.2 negation).1 hlines h⟩

end Reading

end OutlineLisp
