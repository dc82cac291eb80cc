/-!
# Spans of a document

A span is a stretch of a document between two positions, both inclusive. Lines and columns count
from one, and columns count characters. They are words of 32 bits, as in the data that hosts
exchange. The zero span belongs to what has no place in a document.

## Main definitions

* `Span.point`, `Span.onLine`: the spans of one position and of a stretch of one line.
* `Span.display`: the start of a span as users see it.
-/

namespace OutlineLisp

/-- A stretch of a document. -/
structure Span where
  startLine : UInt32 := 0
  startColumn : UInt32 := 0
  endLine : UInt32 := 0
  endColumn : UInt32 := 0
  deriving DecidableEq, Repr, Inhabited

namespace Span

/-- The span of a single position. -/
def point (line column : UInt32) : Span := ⟨line, column, line, column⟩

/-- The last of `length` columns from a column on. Of no columns it is the first, and so it is when
the last would be beyond the columns that there are. -/
def lastColumn (column : UInt32) (length : Nat) : UInt32 :=
  let last := column + (UInt32.ofNat length - 1)
  if UInt32.ofNat length = 0 || last < column then column else last

/-- The span of `length` characters of one line. -/
def onLine (line column : UInt32) (length : Nat) : Span :=
  ⟨line, column, line, lastColumn column length⟩

/-- The start of a span as users see it. -/
def display (s : Span) : String := toString s.startLine.toNat ++ ":" ++ toString s.startColumn.toNat

end Span

end OutlineLisp
