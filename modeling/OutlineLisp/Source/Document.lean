import OutlineLisp.Source.Span
import OutlineLisp.Text.Bytes

/-!
# Documents and their lines

A document is a named text. Its lines are the pieces between the newline characters, so there is one
more line than there are newlines and an empty document has one empty line. Carriage returns at the
end of a line belong to the line break and are dropped.

A line is looked up by its number. What makes this possible is an index of the offsets at which
lines start: each line ends just before the newline that is in front of the next one, and the last
line ends with the text.

Numbers of lines are words of 32 bits. The lines that are read are those up to the number of lines,
cut to such a word; so a document with `2 ^ 32` lines or more is not read to its end.

## Main definitions

* `Document.lines`: the lines in order.
* `Document.lineStarts`, `Document.bounds?`: the index, and the offsets that enclose a line.
* `Document.line? n`: line number `n`, counting from one.
* `Document.numberedLines`: the lines that are read, with their numbers.
* `Document.sourceLine`: the line on which a span starts.
-/

namespace OutlineLisp

/-- A named text. -/
structure Document where
  name : String
  text : String

namespace Document

/-- One character in front of pieces: a newline opens a new piece, any other character joins the
first. -/
def splitStep (c : Char) : List (List Char) → List (List Char)
  | [] => if c = '\n' then [[], []] else [[c]]
  | piece :: pieces => if c = '\n' then [] :: piece :: pieces else (c :: piece) :: pieces

/-- The pieces of a text between its newline characters. -/
def pieces (cs : List Char) : List (List Char) := cs.foldr splitStep [[]]

/-- A text without the carriage returns at its end. -/
def dropReturns (cs : List Char) : List Char :=
  (cs.reverse.dropWhile fun c => c = '\r').reverse

/-- The lines of a document in order. -/
def lines (d : Document) : List (List Char) := (pieces d.text.toList).map dropReturns

/-! ### Looking up lines -/

/-- The offsets at which lines start: the first one, and those behind newlines. -/
def lineStarts (d : Document) : List Nat :=
  0 :: (Text.offsetsOf '\n' 0 d.text.toList).map (· + 1)

/-- The number of lines. -/
def lineCount (d : Document) : Nat := d.lineStarts.length

/-- The offsets that enclose line number `n`, carriage returns included. -/
def bounds? (d : Document) (n : Nat) : Option (Nat × Nat) :=
  if n = 0 then none
  else d.lineStarts[n - 1]?.map fun start =>
    (start, (d.lineStarts[n]?.map (· - 1)).getD d.text.utf8ByteSize)

/-- Line number `n`, counting from one. -/
def line? (d : Document) (n : Nat) : Option (List Char) :=
  (d.bounds? n).bind fun (start, stop) =>
    (Text.slice? d.text.toList start stop).map dropReturns

/-- The number of the last line that is read: the number of lines, cut to a word. -/
def lastNumber (d : Document) : UInt32 := UInt32.ofNat d.lineCount

/-- The lines that are read, with their numbers. -/
def numberedLines (d : Document) : List (Nat × List Char) :=
  (List.range' 1 d.lastNumber.toNat).filterMap fun n => (d.line? n).map fun line => (n, line)

/-- The line on which a span starts, or an empty one if there is no such line. -/
def sourceLine (d : Document) (s : Span) : String :=
  String.ofList ((d.line? s.startLine.toNat).getD [])

theorem sourceLine_eq {d : Document} {s : Span} {line : List Char}
    (h : d.line? s.startLine.toNat = some line) : d.sourceLine s = String.ofList line := by
  rw [sourceLine, h, Option.getD_some]

/-! ### Pieces -/

@[simp] theorem pieces_nil : pieces [] = [[]] := rfl

@[simp] theorem pieces_cons (c : Char) (cs : List Char) :
    pieces (c :: cs) = splitStep c (pieces cs) := rfl

/-- There is always a first piece. -/
theorem pieces_ne_nil (cs : List Char) : pieces cs ≠ [] := by
  cases cs with
  | nil => simp
  | cons c cs =>
    rw [pieces_cons]
    cases pieces cs <;> by_cases h : c = '\n' <;> simp [splitStep, h]

end Document

end OutlineLisp
