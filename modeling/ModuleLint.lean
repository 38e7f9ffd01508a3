import ModuleLint.CommandLine.Arguments
import ModuleLint.CommandLine.Inputs
import ModuleLint.CommandLine.Run
import ModuleLint.Decimal.Shortest
import ModuleLint.Files.Discovery
import ModuleLint.Files.FileTree
import ModuleLint.Files.Glob
import ModuleLint.Files.IgnoreRule
import ModuleLint.Files.Path
import ModuleLint.Grammar.Expression
import ModuleLint.Grammar.Parse
import ModuleLint.Grammar.Reader
import ModuleLint.Grammar.Statement
import ModuleLint.Json.Format
import ModuleLint.Json.Printer
import ModuleLint.Json.Reader
import ModuleLint.Json.Value
import ModuleLint.Lexical.Error
import ModuleLint.Lexical.Keyword
import ModuleLint.Lexical.Piece
import ModuleLint.Lexical.Scan
import ModuleLint.Lexical.Token
import ModuleLint.Lint.Allowance
import ModuleLint.Lint.Analysis
import ModuleLint.Lint.Catalogue
import ModuleLint.Lint.Config
import ModuleLint.Lint.ConfigSource
import ModuleLint.Lint.Dialect
import ModuleLint.Lint.Finding
import ModuleLint.Lint.Log
import ModuleLint.Lint.ResultJson
import ModuleLint.Lint.Rule
import ModuleLint.Lint.Severity
import ModuleLint.Lint.UnixObject
import ModuleLint.Main
import ModuleLint.Proofs.Checked.Frames
import ModuleLint.Proofs.Checked.Functions
import ModuleLint.Proofs.Checked.Grammar
import ModuleLint.Proofs.Checked.Machine
import ModuleLint.Proofs.Checked.Progress
import ModuleLint.Proofs.Checked.Scan
import ModuleLint.Proofs.Checked.Tree
import ModuleLint.Proofs.CommandLine.Gate
import ModuleLint.Proofs.Files.Parts
import ModuleLint.Proofs.Files.PathOrder
import ModuleLint.Proofs.Grammar.Apart
import ModuleLint.Proofs.Grammar.Blocks
import ModuleLint.Proofs.Grammar.Children
import ModuleLint.Proofs.Grammar.Climb
import ModuleLint.Proofs.Grammar.Closure
import ModuleLint.Proofs.Grammar.Completeness
import ModuleLint.Proofs.Grammar.Composition
import ModuleLint.Proofs.Grammar.Conformance
import ModuleLint.Proofs.Grammar.Deepening
import ModuleLint.Proofs.Grammar.Endings
import ModuleLint.Proofs.Grammar.Expr
import ModuleLint.Proofs.Grammar.Foresight
import ModuleLint.Proofs.Grammar.Kinds
import ModuleLint.Proofs.Grammar.Nesting
import ModuleLint.Proofs.Grammar.Parsed
import ModuleLint.Proofs.Grammar.Precedence
import ModuleLint.Proofs.Grammar.Production
import ModuleLint.Proofs.Grammar.Raising
import ModuleLint.Proofs.Grammar.Reads
import ModuleLint.Proofs.Grammar.Reports
import ModuleLint.Proofs.Grammar.RoundTrip
import ModuleLint.Proofs.Grammar.Runs
import ModuleLint.Proofs.Grammar.Seams
import ModuleLint.Proofs.Grammar.Soundness
import ModuleLint.Proofs.Grammar.Spacing
import ModuleLint.Proofs.Grammar.Statements
import ModuleLint.Proofs.Grammar.Turns
import ModuleLint.Proofs.Json.Grammar
import ModuleLint.Proofs.Json.Printing
import ModuleLint.Proofs.Json.Reading
import ModuleLint.Proofs.Lexical.Comments
import ModuleLint.Proofs.Lexical.Excerpt
import ModuleLint.Proofs.Lexical.Faults
import ModuleLint.Proofs.Lexical.Join
import ModuleLint.Proofs.Lexical.Lengths
import ModuleLint.Proofs.Lexical.Munch
import ModuleLint.Proofs.Lexical.Places
import ModuleLint.Proofs.Lexical.Respelling
import ModuleLint.Proofs.Lexical.Scans
import ModuleLint.Proofs.Lexical.Spread
import ModuleLint.Proofs.Lexical.TrailingComment
import ModuleLint.Proofs.Lint.Aggregation
import ModuleLint.Proofs.Lint.Directive
import ModuleLint.Proofs.Lint.DirectiveLookup
import ModuleLint.Proofs.Lint.Exactness
import ModuleLint.Proofs.Lint.FindingOrder
import ModuleLint.Proofs.Lint.Guarding
import ModuleLint.Proofs.Lint.Invariance
import ModuleLint.Proofs.Lint.Mention
import ModuleLint.Proofs.Lint.NearestConfig
import ModuleLint.Proofs.Lint.ReportedPaths
import ModuleLint.Proofs.Lint.ResultRoundTrip
import ModuleLint.Proofs.Lint.SeverityOverride
import ModuleLint.Proofs.Lint.Strictness
import ModuleLint.Proofs.Lint.Suppression
import ModuleLint.Proofs.Text.Bytes
import ModuleLint.Proofs.Text.Trim
import ModuleLint.Proofs.Tree.Depth
import ModuleLint.Proofs.Tree.Duality
import ModuleLint.Proofs.Tree.Excerpts
import ModuleLint.Proofs.Tree.Forest
import ModuleLint.Proofs.Tree.Gaps
import ModuleLint.Proofs.Tree.Height
import ModuleLint.Proofs.Tree.Items
import ModuleLint.Proofs.Tree.Layout
import ModuleLint.Proofs.Tree.Outline
import ModuleLint.Proofs.Tree.Placement
import ModuleLint.Proofs.Tree.Queries
import ModuleLint.Proofs.Tree.Skeleton
import ModuleLint.Proofs.Tree.Spans
import ModuleLint.Proofs.Tree.Traversal
import ModuleLint.Proofs.Tree.WellFormed
import ModuleLint.Report.Listing
import ModuleLint.Report.RuleTable
import ModuleLint.Report.Snippet
import ModuleLint.Text.Blank
import ModuleLint.Text.Cut
import ModuleLint.Text.Folding
import ModuleLint.Text.Letter
import ModuleLint.Text.Position
import ModuleLint.Text.Quoted
import ModuleLint.Text.Rests
import ModuleLint.Text.Scanner
import ModuleLint.Text.Width
import ModuleLint.Text.Wrap
import ModuleLint.Toml.Document
import ModuleLint.Toml.Reader
import ModuleLint.Toml.Value
import ModuleLint.Tree.Basic
import ModuleLint.Tree.Builder
import ModuleLint.Tree.Derivation
import ModuleLint.Tree.Kind
import ModuleLint.Tree.Visitor
