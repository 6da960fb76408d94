import Descent.Budget
import Descent.CommandLine.Options
import Descent.CommandLine.Report
import Descent.Cursor
import Descent.Decimal.Binary
import Descent.Decimal.Read
import Descent.Decimal.Shortest
import Descent.Decimal.Style
import Descent.Failure
import Descent.Fault
import Descent.Grammar.Lifetime
import Descent.Grammar.Program
import Descent.Grammar.Recipe
import Descent.Grammar.Store
import Descent.Grammar.Workspace
import Descent.Inspect
import Descent.Json.Basic
import Descent.Json.Printer
import Descent.Keyed
import Descent.Main
import Descent.ParseError
import Descent.Pattern
import Descent.Pool
import Descent.Position
import Descent.Proofs.Account
import Descent.Proofs.Acts
import Descent.Proofs.Anchored
import Descent.Proofs.Answers
import Descent.Proofs.Bindings
import Descent.Proofs.Boundary
import Descent.Proofs.Chronicle
import Descent.Proofs.Composed
import Descent.Proofs.Content
import Descent.Proofs.Contract
import Descent.Proofs.Diagnostics
import Descent.Proofs.Effort
import Descent.Proofs.Ending
import Descent.Proofs.ErrorPosition
import Descent.Proofs.Evaluation
import Descent.Proofs.Extent
import Descent.Proofs.Faults
import Descent.Proofs.Height
import Descent.Proofs.History
import Descent.Proofs.Indifference
import Descent.Proofs.LateBinding
import Descent.Proofs.Ledger
import Descent.Proofs.LeftRecursion
import Descent.Proofs.Lifetime
import Descent.Proofs.Limits
import Descent.Proofs.Merge
import Descent.Proofs.Offsets
import Descent.Proofs.Ownership
import Descent.Proofs.Parts
import Descent.Proofs.Reading
import Descent.Proofs.Recipes
import Descent.Proofs.Recursion
import Descent.Proofs.Relink
import Descent.Proofs.Reports
import Descent.Proofs.Room
import Descent.Proofs.Scanning
import Descent.Proofs.Skeleton
import Descent.Proofs.Stylesheet.Acceptance
import Descent.Proofs.Stylesheet.Lexemes
import Descent.Proofs.Stylesheet.Patterns
import Descent.Proofs.Stylesheet.Written
import Descent.Proofs.Trace
import Descent.Proofs.Unbounded
import Descent.Regex.Basic
import Descent.Regex.Brackets
import Descent.Regex.CharSet
import Descent.Regex.Escape
import Descent.Regex.Match
import Descent.Regex.Parser
import Descent.Rule.Apply
import Descent.Rule.Basic
import Descent.Rule.Custom
import Descent.Rule.Parse
import Descent.Rule.Plan
import Descent.Rule.Session
import Descent.Span
import Descent.Stylesheet.Grammar
import Descent.Stylesheet.Statistics
import Descent.Text.Alphabetic
import Descent.Text.Bytes
import Descent.Text.CaseFold
import Descent.Text.Digit
import Descent.Text.Grapheme
import Descent.Text.Lines
import Descent.Text.Mark
import Descent.Text.Printable
import Descent.Text.Quoted
import Descent.Text.Ranges
import Descent.Text.Space
import Descent.Text.Word
import Descent.Transform
import Descent.Value.Basic
import Descent.Value.Display
import Descent.Value.Equality
import Descent.Value.Inspect
import Descent.Value.Json
import Descent.Proofs.Stylesheet.Layout
import Descent.Proofs.Stylesheet.Matched
import Descent.Proofs.Stylesheet.Soundness
import Descent.Proofs.Stylesheet.Concatenation
import Descent.Proofs.Stylesheet.Values
import Descent.Proofs.Stylesheet.Comments
import Descent.Proofs.Stylesheet.Insertion
import Descent.Proofs.Lockstep
import Descent.Proofs.Unlimited
import Descent.Proofs.Chain
import Descent.Proofs.Delimited
import Descent.Proofs.Record
import Descent.Proofs.Inlining
import Descent.Proofs.Regrouping
import Descent.Proofs.Positions
import Descent.Proofs.Caret
import Descent.Proofs.Nesting
import Descent.Proofs.Lookup
import Descent.Proofs.Reordering
import Descent.Proofs.Quotation
import Descent.Proofs.Display
import Descent.Proofs.Collected
import Descent.Proofs.Forwarding
