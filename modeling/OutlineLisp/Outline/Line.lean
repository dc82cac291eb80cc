import OutlineLisp.Source.Document
import OutlineLisp.Source.Span
import OutlineLisp.Text.Blank

/-!
# Lines of an outline

A line that is not blank is a heading, a bullet or prose, by its first visible character. It sits at
an indentation level, half the width of the blanks in front of it, and its span covers the line
without the blanks at both ends.

A bullet's marker is stripped only when a blank follows it: a lone `-` or `*` is the name of an
arithmetic function and stays as it is.

## Main definitions

* `Line.classify`: the kind of a trimmed line.
* `Line.ofRaw?`: the line with a number and a raw text, if it is not blank.
* `Line.ofDocument`: the lines of a document that are read and not blank.
-/

namespace OutlineLisp

/-- What a line of an outline is. -/
inductive LineKind where
  /-- A line that opens a definition. -/
  | heading (name : String)
  /-- An item of a list, without its marker. -/
  | bullet (content : String)
  /-- Anything else. -/
  | prose
  deriving DecidableEq, Repr

/-- The kind of a line in words. -/
def LineKind.display : LineKind → String
  | heading name => "heading '" ++ name ++ "'"
  | bullet content => "list item '" ++ content ++ "'"
  | prose => "text"

/-- A line of an outline that is not blank. -/
structure Line where
  kind : LineKind
  /-- The indentation level. -/
  indent : Nat
  /-- The place of the trimmed text. -/
  span : Span
  deriving DecidableEq, Repr

namespace Line

/-- Whether a character marks an item of a list. -/
def isMarker (c : Char) : Bool := c = '-' || c = '*'

/-- The width of a blank in front of a line. A tab is as wide as one level of indentation. -/
def blankWidth (c : Char) : Nat := if c = '\t' then 2 else 1

/-- The blanks at the start of a raw line. -/
def leading (raw : List Char) : List Char := raw.takeWhile Text.isBlank

/-- The width of blanks. -/
def width (blanks : List Char) : Nat := blanks.foldr (fun c n => blankWidth c + n) 0

/-- The indentation level of a raw line. -/
def indentLevel (raw : List Char) : Nat := width (leading raw) / 2

/-- Strip one marker that a blank follows, and the blanks after it. -/
def stripMarker : List Char → List Char
  | m :: c :: cs =>
    if isMarker m && Text.isBlank c then Text.trimStart (c :: cs) else m :: c :: cs
  | cs => cs

/-- The kind of a trimmed line. Any number of `#` opens a heading. -/
def classify : List Char → LineKind
  | [] => .prose
  | c :: cs =>
    if c = '#' then .heading (String.ofList (Text.trim (cs.dropWhile fun c => c = '#')))
    else if isMarker c then .bullet (String.ofList (stripMarker (c :: cs)))
    else .prose

/-- The line with a number and a raw text, unless it is blank. -/
def ofRaw? (number : Nat) (raw : List Char) : Option Line :=
  let trimmed := Text.trim raw
  if trimmed.isEmpty then none
  else some
    { kind := classify trimmed
      indent := indentLevel raw
      span :=
        .onLine (UInt32.ofNat number) (UInt32.ofNat ((leading raw).length + 1)) trimmed.length }

/-- The lines of a document that are read and not blank, in order. -/
def ofDocument (d : Document) : List Line :=
  d.numberedLines.filterMap fun (number, raw) => ofRaw? number raw

end Line

end OutlineLisp
