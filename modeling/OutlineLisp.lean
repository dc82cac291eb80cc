import OutlineLisp.Digest.Sha256
import OutlineLisp.Execution.Registration
import OutlineLisp.Execution.Report
import OutlineLisp.Execution.Run
import OutlineLisp.Fault
import OutlineLisp.Form.Basic
import OutlineLisp.Form.OfNode
import OutlineLisp.Json.Basic
import OutlineLisp.Json.Nesting
import OutlineLisp.Json.Node
import OutlineLisp.Json.Number
import OutlineLisp.Json.Object
import OutlineLisp.Json.Quoted
import OutlineLisp.Json.Reader
import OutlineLisp.Json.Report
import OutlineLisp.Json.Token
import OutlineLisp.Machine.Basic
import OutlineLisp.Machine.Evaluator
import OutlineLisp.Machine.Recursive
import OutlineLisp.Machine.Run
import OutlineLisp.Number.Binary64
import OutlineLisp.Number.Decimal
import OutlineLisp.Number.Numeral
import OutlineLisp.Number.Remainder
import OutlineLisp.Number.Rounding
import OutlineLisp.Number.Shortest
import OutlineLisp.Number.Text
import OutlineLisp.Outline.Line
import OutlineLisp.Outline.Section
import OutlineLisp.Primitive
import OutlineLisp.Scope.Store
import OutlineLisp.Source.Document
import OutlineLisp.Source.Span
import OutlineLisp.Text.Blank
import OutlineLisp.Text.Bytes
import OutlineLisp.Text.Quoted
import OutlineLisp.Text.Visible
import OutlineLisp.Tree.Builder
import OutlineLisp.Tree.Item
import OutlineLisp.Tree.Node
import OutlineLisp.Tree.Program
import OutlineLisp.Value.Basic
import OutlineLisp.Value.Primitive
import OutlineLisp.Warning
import OutlineLisp.Proofs.Machine.Agreement
import OutlineLisp.Proofs.Machine.Termination
import OutlineLisp.Proofs.Machine.Transition
import OutlineLisp.Proofs.Machine.Scopes
import OutlineLisp.Proofs.Machine.Limits
import OutlineLisp.Proofs.Execution.Registration
import OutlineLisp.Proofs.Execution.Limits
import OutlineLisp.Proofs.Execution.Resolution
import OutlineLisp.Proofs.Form.Free
import OutlineLisp.Proofs.Form.Traversal
import OutlineLisp.Proofs.Form.Nesting
import OutlineLisp.Proofs.Form.Shape
import OutlineLisp.Proofs.Form.Heading
import OutlineLisp.Proofs.Execution.Formation
import OutlineLisp.Proofs.Machine.Resolution
import OutlineLisp.Proofs.Form.Renaming
import OutlineLisp.Proofs.Scope.Growth
import OutlineLisp.Proofs.Scope.Renaming
import OutlineLisp.Proofs.Value.Renaming
import OutlineLisp.Proofs.Machine.Renaming
import OutlineLisp.Proofs.Tree.Forest
import OutlineLisp.Proofs.Tree.Sections
import OutlineLisp.Proofs.Tree.Indentation
import OutlineLisp.Proofs.Number.Canonical
import OutlineLisp.Proofs.Number.Order
import OutlineLisp.Proofs.Number.Shortest
import OutlineLisp.Proofs.Number.Significance
import OutlineLisp.Proofs.Number.Exact
import OutlineLisp.Proofs.Source.Lines
import OutlineLisp.Proofs.Source.Index
import OutlineLisp.Proofs.Source.LineBreaks
import OutlineLisp.Proofs.Outline.Markers
import OutlineLisp.Proofs.Tree.Positions
import OutlineLisp.Proofs.Tree.Warnings
import OutlineLisp.Proofs.Tree.WellFormed
import OutlineLisp.Proofs.Tree.Spans
import OutlineLisp.Proofs.Tree.Written
import OutlineLisp.Proofs.Tree.Source
import OutlineLisp.Proofs.Json.Literal
import OutlineLisp.Proofs.Json.Quoted
import OutlineLisp.Proofs.Json.Text
import OutlineLisp.Proofs.Json.Object
import OutlineLisp.Proofs.Json.Node
import OutlineLisp.Proofs.Json.Report
import OutlineLisp.Proofs.Form.Matching
import OutlineLisp.Proofs.Execution.Exchange
import OutlineLisp.Proofs.Value.Identity
import OutlineLisp.Proofs.Scope.Identity
import OutlineLisp.Proofs.Machine.Correspondence
import OutlineLisp.Proofs.Machine.Identity
import OutlineLisp.Proofs.Execution.Order
import OutlineLisp.Proofs.Machine.Balance
import OutlineLisp.Proofs.Scope.References
import OutlineLisp.Proofs.Machine.References
import OutlineLisp.Proofs.Execution.Session
import OutlineLisp.Proofs.Execution.Protocol
import OutlineLisp.Proofs.Tree.Placement
import OutlineLisp.Proofs.Tree.Concatenation
import OutlineLisp.Proofs.Machine.Invariant
import OutlineLisp.Proofs.Outline.Layout
import OutlineLisp.Proofs.Tree.Layout
import OutlineLisp.Proofs.Value.Provenance
import OutlineLisp.Proofs.Scope.Provenance
import OutlineLisp.Proofs.Machine.Provenance
import OutlineLisp.Proofs.Execution.History
import OutlineLisp.Proofs.Machine.Metering
import OutlineLisp.Proofs.Execution.Afresh
import OutlineLisp.Proofs.Execution.Application
import OutlineLisp.Proofs.Execution.Bindings
import OutlineLisp.Proofs.Scope.Widening
import OutlineLisp.Proofs.Machine.Widening
import OutlineLisp.Proofs.Execution.Widening
import OutlineLisp.Proofs.Execution.Arity
import OutlineLisp.Proofs.Scope.History
import OutlineLisp.Proofs.Number.Comparison
import OutlineLisp.Proofs.Value.Equality
import OutlineLisp.Proofs.Execution.Equality
import OutlineLisp.Proofs.Text.Order
import OutlineLisp.Proofs.Value.Comparison
import OutlineLisp.Proofs.Execution.Comparison
import OutlineLisp.Proofs.Value.Fringe
import OutlineLisp.Proofs.Value.Reassociation
import OutlineLisp.Proofs.Execution.Fringe
