import ResumableFormulas.Expression.Evaluation
import ResumableFormulas.Expression.Syntax
import ResumableFormulas.Json.Document
import ResumableFormulas.Json.Number
import ResumableFormulas.Json.Reader
import ResumableFormulas.Json.Text
import ResumableFormulas.Json.Writer
import ResumableFormulas.Number.Binary64
import ResumableFormulas.Number.Decimal
import ResumableFormulas.Number.Digits
import ResumableFormulas.Number.Layout
import ResumableFormulas.Number.Literal
import ResumableFormulas.Number.Shortest
import ResumableFormulas.Operator.Lifting
import ResumableFormulas.Operator.Table
import ResumableFormulas.Pass.Basic
import ResumableFormulas.Pass.Operation
import ResumableFormulas.Pass.Request
import ResumableFormulas.Pass.Suspendable
import ResumableFormulas.Proofs.Expression.Composition
import ResumableFormulas.Proofs.Expression.Dealings
import ResumableFormulas.Proofs.Expression.FieldTree
import ResumableFormulas.Proofs.Expression.Laziness
import ResumableFormulas.Proofs.Expression.LeftSum
import ResumableFormulas.Proofs.Expression.Monotonicity
import ResumableFormulas.Proofs.Expression.OperatorTree
import ResumableFormulas.Proofs.Expression.Provenance
import ResumableFormulas.Proofs.Expression.Suspension
import ResumableFormulas.Proofs.Expression.Transcript
import ResumableFormulas.Proofs.Json.Beginning
import ResumableFormulas.Proofs.Json.Numerals
import ResumableFormulas.Proofs.Json.Scaling
import ResumableFormulas.Proofs.Json.Text
import ResumableFormulas.Proofs.Number.Arithmetic
import ResumableFormulas.Proofs.Number.Decimal
import ResumableFormulas.Proofs.Number.Error
import ResumableFormulas.Proofs.Number.Fewest
import ResumableFormulas.Proofs.Number.Literal
import ResumableFormulas.Proofs.Number.Rounding
import ResumableFormulas.Proofs.Number.Shortest
import ResumableFormulas.Proofs.Operator.Agreement
import ResumableFormulas.Proofs.Operator.Comparison
import ResumableFormulas.Proofs.Operator.ErrorChain
import ResumableFormulas.Proofs.Operator.Padding
import ResumableFormulas.Proofs.Pass.Application
import ResumableFormulas.Proofs.Pass.Context
import ResumableFormulas.Proofs.Pass.Correspondence
import ResumableFormulas.Proofs.Pass.Journal
import ResumableFormulas.Proofs.Pass.Simulation
import ResumableFormulas.Proofs.Session.Arguments
import ResumableFormulas.Proofs.Session.Completeness
import ResumableFormulas.Proofs.Session.Course
import ResumableFormulas.Proofs.Session.Discovery
import ResumableFormulas.Proofs.Session.Freshness
import ResumableFormulas.Proofs.Session.History
import ResumableFormulas.Proofs.Session.Manual
import ResumableFormulas.Proofs.Session.Slots
import ResumableFormulas.Proofs.Value.Display
import ResumableFormulas.Proofs.Value.Interchange
import ResumableFormulas.Proofs.Value.Reading
import ResumableFormulas.Proofs.Value.Whole
import ResumableFormulas.Proofs.Workbook.Sheet
import ResumableFormulas.Proofs.Workbook.Slots
import ResumableFormulas.Session.Basic
import ResumableFormulas.Session.Formula
import ResumableFormulas.Session.Inspection
import ResumableFormulas.Text.Blank
import ResumableFormulas.Text.Quoted
import ResumableFormulas.Text.Unprintable
import ResumableFormulas.Value.Basic
import ResumableFormulas.Value.Inspection
import ResumableFormulas.Value.Interchange
import ResumableFormulas.Value.Scalar
import ResumableFormulas.Workbook.Basic
import ResumableFormulas.Workbook.Resolution
