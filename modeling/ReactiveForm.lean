import ReactiveForm.Condition.Basic
import ReactiveForm.Condition.Comparator
import ReactiveForm.Condition.Reader
import ReactiveForm.Expression.Bytes
import ReactiveForm.Expression.Compute
import ReactiveForm.Expression.Cursor
import ReactiveForm.Expression.Eval
import ReactiveForm.Expression.Lexer
import ReactiveForm.Expression.Parser
import ReactiveForm.Expression.Reads
import ReactiveForm.Expression.Syntax
import ReactiveForm.Expression.Token
import ReactiveForm.Form.Basic
import ReactiveForm.Form.Check
import ReactiveForm.Form.Recompute
import ReactiveForm.Form.State
import ReactiveForm.Form.Submission
import ReactiveForm.Form.Validation
import ReactiveForm.Form.Write
import ReactiveForm.Graph.Downstream
import ReactiveForm.Graph.Order
import ReactiveForm.Numeric.Binary64
import ReactiveForm.Numeric.Decimal
import ReactiveForm.Numeric.Layout
import ReactiveForm.Numeric.Numeral
import ReactiveForm.Numeric.Shortest
import ReactiveForm.Pattern.Basic
import ReactiveForm.Pattern.Bracket
import ReactiveForm.Pattern.Escape
import ReactiveForm.Pattern.Literal
import ReactiveForm.Pattern.Modes
import ReactiveForm.Pattern.Node
import ReactiveForm.Pattern.Reader
import ReactiveForm.Pattern.Search
import ReactiveForm.Pattern.Size
import ReactiveForm.Schema.Basic
import ReactiveForm.Schema.Field
import ReactiveForm.Schema.Kind
import ReactiveForm.Schema.Reader
import ReactiveForm.Schema.Rule
import ReactiveForm.Settings.Basic
import ReactiveForm.Settings.Document
import ReactiveForm.Settings.Messages
import ReactiveForm.Settings.Reader
import ReactiveForm.Settings.Scalar
import ReactiveForm.Table
import ReactiveForm.Text.Blank
import ReactiveForm.Text.Email
import ReactiveForm.Text.Word
import ReactiveForm.Unicode.Category
import ReactiveForm.Unicode.CharSet
import ReactiveForm.Unicode.Fold
import ReactiveForm.Unicode.Name
import ReactiveForm.Unicode.Property
import ReactiveForm.Unicode.Script
import ReactiveForm.Url.Address
import ReactiveForm.Url.Basic
import ReactiveForm.Url.Direction
import ReactiveForm.Url.DomainName
import ReactiveForm.Url.Host
import ReactiveForm.Url.Joiner
import ReactiveForm.Url.NameChar
import ReactiveForm.Url.Punycode
import ReactiveForm.Value.Basic
import ReactiveForm.Value.Path
import ReactiveForm.Value.Reader
import ReactiveForm.Value.Render
import ReactiveForm.Value.Write
import ReactiveForm.Proofs.Path
import ReactiveForm.Proofs.Write
import ReactiveForm.Proofs.Evaluation
import ReactiveForm.Proofs.ReadBack
import ReactiveForm.Proofs.Removal
import ReactiveForm.Proofs.Downstream
import ReactiveForm.Proofs.Exploration
import ReactiveForm.Proofs.Order
import ReactiveForm.Proofs.Cycles
import ReactiveForm.Proofs.Outcome
import ReactiveForm.Proofs.Grammar
import ReactiveForm.Proofs.Parsing
import ReactiveForm.Proofs.Reading
import ReactiveForm.Proofs.Words
import ReactiveForm.Proofs.Height
import ReactiveForm.Proofs.Skimming
import ReactiveForm.Proofs.Inference
import ReactiveForm.Proofs.Fields
import ReactiveForm.Proofs.Steps
import ReactiveForm.Proofs.CellWrites
import ReactiveForm.Proofs.Clearing
import ReactiveForm.Proofs.Rounds
import ReactiveForm.Proofs.Replay
import ReactiveForm.Proofs.Divergence
import ReactiveForm.Proofs.Agreement
import ReactiveForm.Proofs.Settled
import ReactiveForm.Proofs.Defaults
import ReactiveForm.Proofs.Chains
import ReactiveForm.Proofs.ReadOrder
import ReactiveForm.Proofs.Reordering
import ReactiveForm.Proofs.Isolation
import ReactiveForm.Proofs.Failures
import ReactiveForm.Proofs.Checks
import ReactiveForm.Proofs.Validation
import ReactiveForm.Proofs.Preorder
import ReactiveForm.Proofs.Acceptance
import ReactiveForm.Proofs.RowForms
import ReactiveForm.Proofs.Grouping
import ReactiveForm.Proofs.Watching
import ReactiveForm.Proofs.Submission
import ReactiveForm.Proofs.Requirement
import ReactiveForm.Proofs.Visibility
import ReactiveForm.Proofs.Rearranging
import ReactiveForm.Proofs.Nearest
import ReactiveForm.Proofs.Decimals
import ReactiveForm.Proofs.Shortest
import ReactiveForm.Proofs.Rounding
import ReactiveForm.Proofs.Comparison
import ReactiveForm.Proofs.ConditionForms
import ReactiveForm.Proofs.Templates
import ReactiveForm.Proofs.NumberText
import ReactiveForm.Proofs.Tiling
import ReactiveForm.Proofs.Quotation
import ReactiveForm.Proofs.Bytes
import ReactiveForm.Proofs.Following
import ReactiveForm.Proofs.Balance
