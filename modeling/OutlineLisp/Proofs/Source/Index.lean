import Mathlib.Data.List.Basic
import OutlineLisp.Proofs.Source.Lines

/-!
# The index of lines

To look up lines by the index of their starts gives the same lines as to cut the text at its
newlines. The pieces of a text, each with a newline behind it, are the text itself, up to the
newline behind the last piece. So a piece starts at the size of the pieces in front of it, newlines
included, and it ends at the newline in front of the next start, or with the text.

## Main definitions

* `Document.startsOf`: where pieces start, by their sizes.
* `Document.scanned`: the lines that are read.

## Main results

* `Document.lineStarts_eq`: where lines start.
* `Document.bounds?_of_pieces`: the offsets that enclose a line.
* `Document.line?_eq`, `Document.numberedLines_eq`: the lines that are looked up and read.
* `Document.scanned_eq_lines`: all lines are read if their numbers are words.
-/

namespace OutlineLisp

theorem Text.byteSize_toList (s : String) : byteSize s.toList = s.utf8ByteSize := by
  have h (cs : List Char) : (String.ofList cs).utf8ByteSize = byteSize cs := by
    induction cs with
    | nil => rfl
    | cons c cs ih => simp [String.ofList_cons, ih]
  rw [← h, String.ofList_toList]

namespace Document

variable {cs piece : List Char} {before after : List (List Char)}

/-! ### Pieces of a text -/

theorem unlines_cons (l : List Char) (ls : List (List Char)) :
    unlines (l :: ls) = l ++ '\n' :: unlines ls := by
  simp [unlines]

theorem unlines_append (ls ks : List (List Char)) : unlines (ls ++ ks) = unlines ls ++ unlines ks :=
  List.flatMap_append

theorem byteSize_unlines_cons (l : List Char) (ls : List (List Char)) :
    Text.byteSize (unlines (l :: ls)) = Text.byteSize l + 1 + Text.byteSize (unlines ls) := by
  have hnewline : '\n'.utf8Size = 1 := rfl
  simp [unlines_cons, hnewline]
  omega

/-- The pieces of a text, each with a newline behind it, are the text with a newline behind it. -/
theorem unlines_pieces (cs : List Char) : unlines (pieces cs) = cs ++ ['\n'] := by
  induction cs with
  | nil => rfl
  | cons c cs ih =>
    rw [pieces_cons]
    cases hp : pieces cs with
    | nil => exact absurd hp (pieces_ne_nil cs)
    | cons first pieces =>
      rw [hp, unlines_cons] at ih
      rw [splitStep]
      split
      · next hc => rw [unlines_cons, unlines_cons, ih, hc]; rfl
      · rw [unlines_cons, List.cons_append, ih, List.cons_append]

/-- What stands in front of a piece and behind it. -/
theorem eq_of_pieces (h : pieces cs = before ++ piece :: after) :
    cs = unlines before ++ piece ++ ('\n' :: unlines after).dropLast := by
  have hcs := unlines_pieces cs
  rw [h, unlines_append, unlines_cons, ← List.append_assoc] at hcs
  rw [← List.dropLast_append_of_ne_nil (List.cons_ne_nil _ _), hcs, List.dropLast_concat]

/-! ### Where lines start -/

/-- The offsets at which pieces start, the first of them at a given one. -/
def startsOf (offset : ℕ) : List (List Char) → List ℕ
  | [] => []
  | piece :: pieces => offset :: startsOf (offset + Text.byteSize piece + 1) pieces

theorem length_startsOf (offset : ℕ) (ps : List (List Char)) :
    (startsOf offset ps).length = ps.length := by
  induction ps generalizing offset with
  | nil => rfl
  | cons p ps ih => simp [startsOf, ih]

theorem startsOf_append (offset : ℕ) (ps qs : List (List Char)) :
    startsOf offset (ps ++ qs)
      = startsOf offset ps ++ startsOf (offset + Text.byteSize (unlines ps)) qs := by
  induction ps generalizing offset with
  | nil => simp [startsOf, unlines]
  | cons p ps ih =>
    rw [List.cons_append, startsOf, ih, startsOf, byteSize_unlines_cons, List.cons_append,
      Nat.add_assoc offset, Nat.add_assoc offset]

theorem cons_offsetsOf (offset : ℕ) (cs : List Char) :
    offset :: (Text.offsetsOf '\n' offset cs).map (· + 1) = startsOf offset (pieces cs) := by
  induction cs generalizing offset with
  | nil => rfl
  | cons c cs ih =>
    rw [pieces_cons]
    cases hp : pieces cs with
    | nil => exact absurd hp (pieces_ne_nil cs)
    | cons first pieces =>
      have hcs := ih (offset + c.utf8Size)
      rw [hp, startsOf] at hcs
      obtain ⟨-, htail⟩ := List.cons.inj hcs
      rw [splitStep, Text.offsetsOf]
      split
      · next hc =>
        subst hc
        rw [List.map_cons, htail]
        rfl
      · rw [htail, startsOf, Text.byteSize_cons, Nat.add_assoc offset]

/-- **Where lines start.** -/
theorem lineStarts_eq (d : Document) : d.lineStarts = startsOf 0 (pieces d.text.toList) :=
  cons_offsetsOf 0 d.text.toList

/-! ### Lines that are looked up -/

theorem lineCount_eq (d : Document) : d.lineCount = d.lines.length := by
  rw [lineCount, lineStarts_eq, length_startsOf, lines, List.length_map]

/-- **The offsets that enclose a line** are those at which the text can be cut in front of the piece
and behind it. -/
theorem bounds?_of_pieces {d : Document} (h : pieces d.text.toList = before ++ piece :: after) :
    d.bounds? (before.length + 1)
      = some (Text.byteSize (unlines before), Text.byteSize (unlines before ++ piece)) := by
  have hstarts : d.lineStarts = startsOf 0 before
      ++ Text.byteSize (unlines before)
        :: startsOf (Text.byteSize (unlines before) + Text.byteSize piece + 1) after := by
    rw [lineStarts_eq, h, startsOf_append, startsOf, Nat.zero_add]
  have hlength : (startsOf 0 before).length = before.length := length_startsOf 0 before
  have hstart : d.lineStarts[before.length]? = some (Text.byteSize (unlines before)) := by
    rw [hstarts, List.getElem?_append_right hlength.le, hlength, Nat.sub_self]
    rfl
  have hnext : d.lineStarts[before.length + 1]?
      = (startsOf (Text.byteSize (unlines before) + Text.byteSize piece + 1) after)[0]? := by
    rw [hstarts, List.getElem?_append_right (by omega), hlength, Nat.add_sub_cancel_left]
    rfl
  rw [bounds?, if_neg (Nat.succ_ne_zero _), Nat.add_sub_cancel, hstart, hnext, Option.map_some,
    Text.byteSize_append]
  cases after with
  | nil =>
    -- behind the last piece there is no newline
    have hlast : ('\n' :: unlines []).dropLast = [] := rfl
    have htext : d.text.toList = unlines before ++ piece := by
      rw [eq_of_pieces h, hlast, List.append_nil]
    simp [startsOf, ← Text.byteSize_toList, htext]
  | cons next after => simp [startsOf]

theorem line?_of_pieces {d : Document} (h : pieces d.text.toList = before ++ piece :: after) :
    d.line? (before.length + 1) = some (dropReturns piece) := by
  have hslice : Text.slice? d.text.toList (Text.byteSize (unlines before))
      (Text.byteSize (unlines before ++ piece)) = some piece :=
    Text.slice?_eq_some_iff.2 ⟨_, _, eq_of_pieces h, rfl, rfl⟩
  rw [line?, bounds?_of_pieces h]
  simp only [Option.bind_some, hslice, Option.map_some]

theorem bounds?_eq_none {d : Document} {n : ℕ} (h : d.lineCount < n) : d.bounds? n = none := by
  have hstart : d.lineStarts[n - 1]? = none := by
    rw [List.getElem?_eq_none_iff, ← lineCount]
    omega
  rw [bounds?, if_neg (by omega), hstart, Option.map_none]

/-- The number of a line says how many pieces are in front of it. -/
theorem exists_pieces_eq {d : Document} {n : ℕ} (hpos : 1 ≤ n) (hcount : n ≤ d.lineCount) :
    ∃ before piece after, pieces d.text.toList = before ++ piece :: after ∧
      n = before.length + 1 := by
  have hlt : n - 1 < (pieces d.text.toList).length := by
    rw [lineCount_eq, lines, List.length_map] at hcount
    omega
  refine ⟨(pieces d.text.toList).take (n - 1), (pieces d.text.toList)[n - 1],
    (pieces d.text.toList).drop (n - 1 + 1), ?_, ?_⟩
  · rw [← List.drop_eq_getElem_cons hlt, List.take_append_drop]
  · rw [List.length_take_of_le hlt.le]
    omega

/-- **Line number `n`** is the one that stands at this place. -/
theorem line?_eq (d : Document) (n : ℕ) : d.line? n = if n = 0 then none else d.lines[n - 1]? := by
  split
  · next hn => rw [line?, bounds?, if_pos hn, Option.bind_none]
  · next hn =>
    by_cases hcount : d.lineCount < n
    · have hnone : d.lines[n - 1]? = none := by
        rw [List.getElem?_eq_none_iff, ← lineCount_eq]
        omega
      rw [line?, bounds?_eq_none hcount, Option.bind_none, hnone]
    · obtain ⟨before, piece, after, hpieces, rfl⟩ :=
        exists_pieces_eq (Nat.pos_of_ne_zero hn) (Nat.not_lt.1 hcount)
      rw [line?_of_pieces hpieces, lines, hpieces]
      simp

theorem mem_lines_of_line? {d : Document} {n : ℕ} {line : List Char} (h : d.line? n = some line) :
    line ∈ d.lines := by
  rw [line?_eq] at h
  split at h
  · cases h
  · exact List.mem_of_getElem? h

/-- Lines are numbered from one on. -/
theorem le_lineCount_of_line? {d : Document} {n : ℕ} {line : List Char}
    (h : d.line? n = some line) : 1 ≤ n ∧ n ≤ d.lineCount := by
  rw [line?_eq] at h
  split at h
  · cases h
  · next hn =>
    obtain ⟨hlt, -⟩ := List.getElem?_eq_some_iff.1 h
    rw [lineCount_eq]
    omega

/-! ### Lines that are read -/

theorem toNat_lastNumber (d : Document) : d.lastNumber.toNat = d.lineCount % UInt32.size := rfl

theorem lastNumber_le (d : Document) : d.lastNumber.toNat ≤ d.lineCount := by
  rw [toNat_lastNumber]
  exact Nat.mod_le _ _

/-- The lines that are read. -/
def scanned (d : Document) : List (List Char) := d.lines.take d.lastNumber.toNat

theorem length_scanned (d : Document) : d.scanned.length = d.lastNumber.toNat := by
  rw [scanned, List.length_take_of_le]
  rw [← lineCount_eq]
  exact d.lastNumber_le

/-- **All lines are read** if their numbers are words. -/
theorem scanned_eq_lines {d : Document} (h : d.lineCount < UInt32.size) : d.scanned = d.lines := by
  rw [scanned, toNat_lastNumber, Nat.mod_eq_of_lt h, lineCount_eq, List.take_length]

/-- The numbered lines are the lines that are found up to the last number. -/
theorem mem_numberedLines_iff {d : Document} {n : ℕ} {line : List Char} :
    (n, line) ∈ d.numberedLines ↔ n ≤ d.lastNumber.toNat ∧ d.line? n = some line := by
  simp only [numberedLines, List.mem_filterMap, Option.map_eq_some_iff, Prod.mk.injEq]
  constructor
  · rintro ⟨m, hm, l, hl, rfl, rfl⟩
    obtain ⟨-, hlt⟩ := List.mem_range'_1.1 hm
    exact ⟨by omega, hl⟩
  · rintro ⟨hlast, h⟩
    obtain ⟨hpos, -⟩ := le_lineCount_of_line? h
    exact ⟨n, List.mem_range'_1.2 (by omega), line, h, rfl, rfl⟩

theorem filterMap_range'_getElem? (k : ℕ) (ls : List (List Char)) :
    (List.range' k ls.length).filterMap (fun n => (ls[n - k]?).map fun line => (n, line))
      = (ls.zipIdx k).map fun (line, n) => (n, line) := by
  induction ls generalizing k with
  | nil => rfl
  | cons l ls ih =>
    rw [List.length_cons, List.range'_succ, List.zipIdx_cons, List.map_cons, ← ih,
      List.filterMap_cons_some (b := (k, l)) (by simp)]
    congr 1
    refine List.filterMap_congr fun n hn => ?_
    obtain ⟨hle, -⟩ := List.mem_range'_1.1 hn
    obtain ⟨m, rfl⟩ := Nat.exists_eq_add_of_le hle
    have hleft : k + 1 + m - k = m + 1 := by omega
    have hright : k + 1 + m - (k + 1) = m := by omega
    rw [hleft, hright, List.getElem?_cons_succ]

/-- **The lines with their numbers** are those that are read, counted from one. -/
theorem numberedLines_eq (d : Document) :
    d.numberedLines = d.scanned.zipIdx.map fun (line, i) => (i + 1, line) := by
  have hscanned : d.numberedLines = (List.range' 1 d.scanned.length).filterMap fun n =>
      (d.scanned[n - 1]?).map fun line => (n, line) := by
    rw [numberedLines, length_scanned]
    refine List.filterMap_congr fun n hn => ?_
    obtain ⟨hle, hlt⟩ := List.mem_range'_1.1 hn
    rw [line?_eq, if_neg (by omega), scanned, List.getElem?_take_of_lt (by omega)]
  rw [hscanned, filterMap_range'_getElem?, List.zipIdx_succ, List.map_map]
  rfl

/-- The numbers of the lines increase. -/
theorem pairwise_numberedLines (d : Document) :
    d.numberedLines.Pairwise fun p q => p.1 < q.1 := by
  rw [numberedLines, List.pairwise_filterMap]
  refine (List.pairwise_lt_range' (s := 1)).imp fun hlt p hp q hq => ?_
  obtain ⟨line, -, rfl⟩ := Option.map_eq_some_iff.1 hp
  obtain ⟨line', -, rfl⟩ := Option.map_eq_some_iff.1 hq
  exact hlt

/-! ### Two texts -/

theorem lineCount_append (name s t : String) :
    lineCount ⟨name, s ++ "\n" ++ t⟩ = lineCount ⟨name, s⟩ + lineCount ⟨name, t⟩ := by
  rw [lineCount_eq, lines_append, List.length_append, ← lineCount_eq, ← lineCount_eq]

/-- The lines of the first text have the same numbers. -/
theorem line?_append_left {name s : String} {n : ℕ} (h : n ≤ lineCount ⟨name, s⟩) (t : String) :
    line? ⟨name, s ++ "\n" ++ t⟩ n = line? ⟨name, s⟩ n := by
  rw [line?_eq, line?_eq, lines_append]
  split
  · rfl
  · rw [List.getElem?_append_left]
    rw [← lineCount_eq]
    omega

/-- The lines of the second text have larger numbers. -/
theorem line?_append_right (name s t : String) {n : ℕ} (h : 1 ≤ n) :
    line? ⟨name, s ++ "\n" ++ t⟩ (n + lineCount ⟨name, s⟩) = line? ⟨name, t⟩ n := by
  have hindex : n + lineCount ⟨name, s⟩ - 1 = lineCount ⟨name, s⟩ + (n - 1) := by omega
  rw [line?_eq, line?_eq, lines_append, if_neg (by omega), if_neg (by omega), hindex,
    lineCount_eq, List.getElem?_append_right (Nat.le_add_right _ _), Nat.add_sub_cancel_left]

/-- All lines of two texts are read if their numbers are words, those of the second with larger
numbers. -/
theorem numberedLines_append (name : String) {s t : String}
    (h : lineCount ⟨name, s⟩ + lineCount ⟨name, t⟩ < UInt32.size) :
    numberedLines ⟨name, s ++ "\n" ++ t⟩
      = numberedLines ⟨name, s⟩
        ++ (numberedLines ⟨name, t⟩).map fun (number, raw) =>
          (number + lineCount ⟨name, s⟩, raw) := by
  have hwhole : lineCount ⟨name, s ++ "\n" ++ t⟩ < UInt32.size := by
    rwa [lineCount_append]
  have hfirst : lineCount ⟨name, s⟩ < UInt32.size := by omega
  have hsecond : lineCount ⟨name, t⟩ < UInt32.size := by omega
  rw [numberedLines_eq, numberedLines_eq, numberedLines_eq, scanned_eq_lines hwhole,
    scanned_eq_lines hfirst, scanned_eq_lines hsecond, lines_append, List.zipIdx_append,
    List.map_append, Nat.zero_add, ← lineCount_eq, List.zipIdx_eq_map_add (l := lines ⟨name, t⟩),
    List.map_map, List.map_map]
  congr 2
  funext ⟨raw, i⟩
  refine Prod.ext ?_ rfl
  show lineCount ⟨name, s⟩ + i + 1 = i + 1 + lineCount ⟨name, s⟩
  omega

end Document

end OutlineLisp
