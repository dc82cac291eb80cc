import OutlineLisp.Tree.Builder

/-!
# The program of a document

The sections of a document are the definitions of its program. Reading never fails; bullets in front
of the first heading, headings without a name and headings without bullets are reported, in the
order of the lines.

## Main definitions

* `Reading.ofLines`, `Reading.ofSource`: program and warnings of lines, and of a source text.
-/

namespace OutlineLisp

/-- What reading a document yields. -/
structure Reading where
  program : Node
  warnings : WarningLog

namespace Reading

/-- The reading of lines of a document. -/
def ofLines (d : Document) (lines : List Line) : Reading :=
  let b := Builder.ofLines d lines
  { program := { kind := .program, children := b.definitions, span := Span.point 1 1 }
    warnings := b.warnings }

/-- The reading of a document. -/
def ofDocument (d : Document) : Reading := ofLines d (Line.ofDocument d)

/-- The name under which warnings refer to a source text. -/
def sourceName : String := "main.md"

/-- The reading of a source text. -/
def ofSource (source : String) : Reading := ofDocument ⟨sourceName, source⟩

end Reading

end OutlineLisp
