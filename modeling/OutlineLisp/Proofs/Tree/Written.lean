import OutlineLisp.Proofs.Tree.WellFormed

/-!
# Written items and headings

A name is written as it is, a number between backticks, and a text between quotes between backticks.
In front stand two markers, since a single one would be lost if the item is itself a marker and
something after a blank; one is stripped with the line and the other with the item. What has been
written in this way is read back.

## Main definitions

* `Item.write`: an item as it is written.
* `Item.line`, `Heading.line`: lines of a source text.

## Main results

* `Item.read_marked_write`: items read back.
* `Item.bareOfRaw?_line`, `Heading.bareOfRaw?_line`: lines read back.
-/

namespace OutlineLisp

open Text

namespace Item

variable {kind : NodeKind} {value : Option Atom} {cs : List Char}

/-- A text behind a marker. -/
def marked (cs : List Char) : List Char := '*' :: ' ' :: cs

/-- A text between backticks. -/
def enclosed (cs : List Char) : List Char := backtick :: (cs ++ [backtick])

/-- An item as it is written. -/
def write : NodeKind → Option Atom → List Char
  | .literal, some (.text s) => enclosed ('\x22' :: (s.toList ++ ['\x22']))
  | _, some (.text s) => s.toList
  | _, some (.number x) => enclosed (Number.shown x)
  | _, none => []

/-! ### Tidiness -/

/-- A character that does not surround a text and is not in it. -/
theorem notMem_surrounded {c x : Char} (hx : c ≠ x) (h : c ∉ cs) : c ∉ x :: (cs ++ [x]) := by
  rw [List.mem_cons, List.mem_append, List.mem_singleton]
  rintro (heq | hmem | heq)
  · exact hx heq
  · exact h hmem
  · exact hx heq

theorem tidy_marked (h : Tidy cs) (hne : cs ≠ []) : Tidy (marked cs) := by
  refine ⟨trimmed_iff.2 ⟨stops_cons (by decide) _, ?_⟩, ?_⟩
  · rw [marked, endsVisible_cons _ (List.cons_ne_nil _ _), endsVisible_cons _ hne]
    exact h.endsVisible
  · rw [marked, List.mem_cons, List.mem_cons]
    rintro (heq | heq | hmem)
    · exact absurd heq (by decide)
    · exact absurd heq (by decide)
    · exact h.newline_notMem hmem

theorem tidy_enclosed (h : '\n' ∉ cs) : Tidy (enclosed cs) := by
  have hvisible : isBlank backtick = false := by decide
  refine ⟨trimmed_iff.2 ⟨stops_cons hvisible _, ?_⟩, notMem_surrounded (by decide) h⟩
  rw [enclosed, ← List.cons_append]
  exact endsVisible_concat hvisible _

theorem tidy_write (h : WellFormed kind value) : Tidy (write kind value) := by
  cases h with
  | name tidy => exact tidy
  | number hfinite =>
    have hnewline : ¬Spelling.IsNumberChar '\n' := by decide
    exact tidy_enclosed fun hmem => hnewline (Number.isNumberChar_of_mem_shown hfinite hmem)
  | text _ hnewline => exact tidy_enclosed (notMem_surrounded (by decide) hnewline)

theorem write_ne_nil (h : WellFormed kind value) : write kind value ≠ [] := by
  cases h with
  | name _ hne => exact hne
  | number => exact List.cons_ne_nil _ _
  | text => exact List.cons_ne_nil _ _

/-! ### Reading back -/

/-- Of a tidy text behind a marker, the text is read. -/
theorem read_marked (h : Tidy cs) (hne : cs ≠ []) :
    read (marked cs)
      = match literal? cs with
        | some inner => (.literal, literalValue inner)
        | none => (.symbol, .text (String.ofList cs)) := by
  have hstrip : Line.stripMarker (marked cs) = cs :=
    Line.stripMarker_marked (by decide) h.startsVisible
  have htext : trim (Line.stripMarker (trim (marked cs))) = cs := by
    rw [(tidy_marked h hne).trimmed, hstrip, h.trimmed]
  cases hliteral : literal? cs <;> simp only [read, htext, hliteral]

theorem literal?_enclosed (hne : cs ≠ []) (hmem : backtick ∉ cs) :
    literal? (enclosed cs) = some cs :=
  literal?_eq_some_iff.2 ⟨hne, hmem, rfl⟩

/-- The text of a number is no text but the number. -/
theorem literalValue_shown {x : Float} (hfinite : x.isFinite = true)
    (hzero : x ≠ Number.negativeZero) : literalValue (Number.shown x) = .number x := by
  have hdouble : ¬Spelling.IsNumberChar '\x22' := by decide
  have hsingle : ¬Spelling.IsNumberChar '\x27' := by decide
  have hunquote : unquote (Number.shown x) = Number.shown x :=
    unquote_of_notMem (fun hmem => hdouble (Number.isNumberChar_of_mem_shown hfinite hmem))
      fun hmem => hsingle (Number.isNumberChar_of_mem_shown hfinite hmem)
  have hcanonical : Number.canonical? (Number.shown x) = some x :=
    Number.canonical?_eq_some_iff.2 ⟨hfinite, hzero, (Number.trimmed_shown hfinite).symm⟩
  rw [literalValue, hunquote, hcanonical]

/-- The text between quotes is the text, if it is no number. -/
theorem literalValue_quoted {s : String} (h : Number.canonical? s.toList = none) :
    literalValue ('\x22' :: (s.toList ++ ['\x22'])) = .text s := by
  rw [literalValue, unquote_quoted, h, String.ofList_toList]

/-- **Items read back.** -/
theorem read_marked_write {a : Atom} (h : WellFormed kind (some a)) :
    read (marked (write kind (some a))) = (kind, a) := by
  rw [read_marked (tidy_write h) (write_ne_nil h)]
  cases h with
  | @name s _ _ hliteral =>
    have hnone : literal? (write .symbol (some (.text s))) = none :=
      literal?_eq_none_iff.2 hliteral
    rw [hnone]
    simp only [write, String.ofList_toList]
  | @number x hfinite hzero =>
    have hbacktick : ¬Spelling.IsNumberChar backtick := by decide
    have hmem : backtick ∉ Number.shown x := fun hmem =>
      hbacktick (Number.isNumberChar_of_mem_shown hfinite hmem)
    have hsome : literal? (write .literal (some (.number x))) = some (Number.shown x) :=
      literal?_enclosed (Number.shown_ne_nil hfinite) hmem
    rw [hsome]
    simp only [literalValue_shown hfinite hzero]
  | @text s hbacktick _ hcanonical =>
    have hmem : backtick ∉ '\x22' :: (s.toList ++ ['\x22']) :=
      notMem_surrounded (by decide) hbacktick
    have hsome : literal? (write .literal (some (.text s)))
        = some ('\x22' :: (s.toList ++ ['\x22'])) :=
      literal?_enclosed (List.cons_ne_nil _ _) hmem
    rw [hsome]
    simp only [literalValue_quoted hcanonical]

end Item

/-! ### Lines -/

/-- The line of an item at a depth. -/
def Item.line (depth : Nat) (kind : NodeKind) (value : Option Atom) : List Char :=
  List.replicate (2 * depth) ' ' ++ Item.marked (Item.marked (Item.write kind value))

/-- The line of a heading. -/
def Heading.line (name : List Char) : List Char := '#' :: ' ' :: name

namespace Item

variable {kind : NodeKind} {value : Option Atom}

theorem tidy_marked_write (h : WellFormed kind value) : Tidy (marked (write kind value)) :=
  tidy_marked (tidy_write h) (write_ne_nil h)

theorem tidy_marked_marked_write (h : WellFormed kind value) :
    Tidy (marked (marked (write kind value))) :=
  tidy_marked (tidy_marked_write h) (List.cons_ne_nil _ _)

/-- **The line of an item** is a bullet at the item's depth, with one marker left. -/
theorem bareOfRaw?_line (depth : Nat) (h : WellFormed kind value) :
    Line.bareOfRaw? (line depth kind value)
      = some { kind := .bullet (String.ofList (marked (write kind value)))
               indent := depth, span := {} } := by
  have htidy := tidy_marked_marked_write h
  have hblank : ∀ c ∈ List.replicate (2 * depth) ' ', isBlank c = true := by
    intro c hc
    rw [List.eq_of_mem_replicate hc]
    decide
  have htrim : trim (line depth kind value) = marked (marked (write kind value)) := by
    rw [line, trim_append hblank, htidy.trimmed]
  have hindent : Line.indentLevel (line depth kind value) = depth :=
    Line.indentLevel_indented depth htidy.startsVisible
  have hkind : Line.classify (marked (marked (write kind value)))
      = .bullet (String.ofList (marked (write kind value))) := by
    have hstrip := Line.stripMarker_marked (by decide : Line.isMarker '*' = true)
      (tidy_marked_write h).startsVisible
    rw [marked, Line.classify, if_neg (by decide), if_pos (by decide), hstrip]
  rw [Line.bareOfRaw?, htrim, hindent, hkind]
  rfl

theorem newline_notMem_line (depth : Nat) (h : WellFormed kind value) :
    '\n' ∉ line depth kind value := by
  intro hmem
  rcases List.mem_append.1 hmem with hmem | hmem
  · exact absurd (List.eq_of_mem_replicate hmem) (by decide)
  · exact (tidy_marked_marked_write h).newline_notMem hmem

theorem noReturn_line (depth : Nat) (h : WellFormed kind value) :
    Document.NoReturn (line depth kind value) := by
  refine Document.noReturn_of_endsVisible ?_
  have hne : marked (marked (write kind value)) ≠ [] := List.cons_ne_nil _ _
  rw [line, endsVisible_append hne]
  exact (tidy_marked_marked_write h).endsVisible

end Item

namespace Heading

variable {name : List Char}

theorem endsVisible_line (h : Tidy name) (hne : name ≠ []) : EndsVisible (line name) := by
  rw [line, endsVisible_cons _ (List.cons_ne_nil _ _), endsVisible_cons _ hne]
  exact h.endsVisible

theorem trim_line (h : Tidy name) :
    trim (line name) = '#' :: if name = [] then [] else ' ' :: name := by
  split
  · next hnil => rw [hnil]; decide
  · next hne =>
    exact trimmed_iff.2 ⟨stops_cons (by decide) _, endsVisible_line h hne⟩

/-- **The line of a heading** is a heading. -/
theorem bareOfRaw?_line (h : Tidy name) :
    Line.bareOfRaw? (line name)
      = some { kind := .heading (String.ofList name), indent := 0, span := {} } := by
  have hindent : Line.indentLevel (line name) = 0 :=
    Line.indentLevel_indented 0 (stops_cons (by decide) _)
  have hname : trim ((if name = [] then [] else ' ' :: name).dropWhile fun c => c = '#')
      = name := by
    split
    · next hnil => rw [hnil]; rfl
    · have hblank : ∀ c ∈ [' '], isBlank c = true := List.forall_mem_singleton.2 (by decide)
      rw [List.dropWhile_cons_of_neg (by decide), ← List.singleton_append, trim_append hblank,
        h.trimmed]
  rw [Line.bareOfRaw?, trim_line h, hindent, Line.classify, if_pos rfl, hname]
  rfl

theorem newline_notMem_line (h : Tidy name) : '\n' ∉ line name := by
  rw [line, List.mem_cons, List.mem_cons]
  rintro (heq | heq | hmem)
  · exact absurd heq (by decide)
  · exact absurd heq (by decide)
  · exact h.newline_notMem hmem

theorem noReturn_line (h : Tidy name) : Document.NoReturn (line name) := by
  by_cases hne : name = []
  · rw [hne]
    intro c hc
    obtain rfl := Option.some.inj hc
    decide
  · exact Document.noReturn_of_endsVisible (endsVisible_line h hne)

end Heading

end OutlineLisp
