import Parlance.Text.Quoted
import Parlance.Text.Escape
import Parlance.Number.Integer
import Parlance.Decimal.Numeral
import Parlance.Decimal.Order
import Parlance.Decimal.Arithmetic
import Parlance.Number.Binary64
import Parlance.Json.Reader
import Parlance.Json.Shown
import Parlance.Type
import Parlance.Fault
import Parlance.Literal
import Parlance.Operator.Typing
import Parlance.Operator.Evaluation
import Parlance.Syntax.Traversal
import Parlance.Syntax.Equality
import Parlance.Store.Registry
import Parlance.Checker.Source
import Parlance.Evaluator.Basic
import Parlance.Program
import Parlance.Document.Reader
import Parlance.Document.Writer
import Parlance.CommandLine.Basic
import Parlance.Main
import Parlance.Proofs.Kinds.Preservation
import Parlance.Proofs.Kinds.Progress
import Parlance.Proofs.Calls.Agreement
import Parlance.Proofs.Operators.Safe
import Parlance.Proofs.Operators.Tables
import Parlance.Proofs.Checking.Certified
import Parlance.Proofs.Variables.Agreement
import Parlance.Proofs.Document.RoundTrip
import Parlance.Proofs.Renamed.Program
import Parlance.Proofs.Closed.Program
import Parlance.Proofs.Running.Scopes
import Parlance.Proofs.Reordered.Program
import Parlance.Proofs.Terminating.Program
import Parlance.Proofs.Beside.Program
import Parlance.Proofs.Store.Registries
import Parlance.Proofs.CommandLine.Agreement
import Parlance.Proofs.Members.Program
import Parlance.Proofs.Checking.Outcome
import Parlance.Proofs.Decimal.Quotient
import Parlance.Proofs.Document.Tags
import Parlance.Proofs.CommandLine.Endings
import Parlance.Proofs.Decimal.Exact
import Parlance.Proofs.Operators.Comparison
import Parlance.Proofs.Trimmed.Program
import Parlance.Proofs.Unrolled.Loops
import Parlance.Proofs.Literals.Escapes
import Parlance.Proofs.Running.Settled
import Parlance.Proofs.Inferred.Program
import Parlance.Proofs.Ungrouped.Program
import Parlance.Proofs.Calls.Attained
import Parlance.Proofs.Calls.Supplied
import Parlance.Proofs.CommandLine.Arguments
import Parlance.Proofs.Operators.Division
