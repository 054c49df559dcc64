import GatedExpr.Builtin.Library
import GatedExpr.Builtin.Math
import GatedExpr.Builtin.Numeral
import GatedExpr.Builtin.Reference
import GatedExpr.Builtin.Sequence
import GatedExpr.Closure.Basic
import GatedExpr.Closure.Compile
import GatedExpr.Closure.Path
import GatedExpr.Closure.Target
import GatedExpr.Evaluation
import GatedExpr.Fault
import GatedExpr.Gate.Basic
import GatedExpr.Gate.Config
import GatedExpr.Gate.ConfigText
import GatedExpr.Grammar.Basic
import GatedExpr.Grammar.Cursor
import GatedExpr.Grammar.Expression
import GatedExpr.Grammar.Matcher
import GatedExpr.Grammar.Pattern
import GatedExpr.Grammar.PatternText
import GatedExpr.Grammar.Precedence
import GatedExpr.Grammar.Token
import GatedExpr.Main
import GatedExpr.Node.Access
import GatedExpr.Node.Basic
import GatedExpr.Node.Printer
import GatedExpr.Number.Basic
import GatedExpr.Number.Binary64
import GatedExpr.Number.Fixed
import GatedExpr.Number.Numeral
import GatedExpr.Number.Power
import GatedExpr.Number.Shortest
import GatedExpr.Operator
import GatedExpr.Proofs.Builtin.Effects
import GatedExpr.Proofs.Builtin.Integers
import GatedExpr.Proofs.Builtin.Pieces
import GatedExpr.Proofs.Builtin.Radix
import GatedExpr.Proofs.Builtin.RoundedIntegers
import GatedExpr.Proofs.Builtin.Search
import GatedExpr.Proofs.Builtin.Slices
import GatedExpr.Proofs.Builtin.TextMethods
import GatedExpr.Proofs.Builtin.Treeless
import GatedExpr.Proofs.Closure.BigStep
import GatedExpr.Proofs.Closure.Blame
import GatedExpr.Proofs.Closure.Branching
import GatedExpr.Proofs.Closure.Coinciding
import GatedExpr.Proofs.Closure.CompiledFrom
import GatedExpr.Proofs.Closure.Composition
import GatedExpr.Proofs.Closure.Effects
import GatedExpr.Proofs.Closure.Implements
import GatedExpr.Proofs.Closure.NumbersAsTexts
import GatedExpr.Proofs.Closure.Path
import GatedExpr.Proofs.Closure.PrintedValues
import GatedExpr.Proofs.Closure.Reading
import GatedExpr.Proofs.Closure.Refinement
import GatedExpr.Proofs.Closure.RunsAlike
import GatedExpr.Proofs.Closure.Secrecy
import GatedExpr.Proofs.Closure.Target
import GatedExpr.Proofs.Closure.Treeless
import GatedExpr.Proofs.Computation
import GatedExpr.Proofs.Expr.Basic
import GatedExpr.Proofs.Expr.Content
import GatedExpr.Proofs.Expr.Fold
import GatedExpr.Proofs.Expr.Identities
import GatedExpr.Proofs.Expr.Positions
import GatedExpr.Proofs.Expr.Printed
import GatedExpr.Proofs.Expr.Readable
import GatedExpr.Proofs.Expr.Spine
import GatedExpr.Proofs.Expr.Text
import GatedExpr.Proofs.Expr.WellFormed
import GatedExpr.Proofs.Gate.Admission
import GatedExpr.Proofs.Gate.Configuration
import GatedExpr.Proofs.Gate.Inquiry
import GatedExpr.Proofs.Gate.Interchange
import GatedExpr.Proofs.Gate.Merging
import GatedExpr.Proofs.Gate.Passing
import GatedExpr.Proofs.Gate.Permits
import GatedExpr.Proofs.Gate.Questions
import GatedExpr.Proofs.Grammar.Accepting
import GatedExpr.Proofs.Grammar.Activations
import GatedExpr.Proofs.Grammar.Apart
import GatedExpr.Proofs.Grammar.Backtracking
import GatedExpr.Proofs.Grammar.Clear
import GatedExpr.Proofs.Grammar.Composing
import GatedExpr.Proofs.Grammar.Cutting
import GatedExpr.Proofs.Grammar.Derivation
import GatedExpr.Proofs.Grammar.Errors
import GatedExpr.Proofs.Grammar.Extents
import GatedExpr.Proofs.Grammar.Following
import GatedExpr.Proofs.Grammar.Furthest
import GatedExpr.Proofs.Grammar.Greedy
import GatedExpr.Proofs.Grammar.History
import GatedExpr.Proofs.Grammar.Insertion
import GatedExpr.Proofs.Grammar.Layout
import GatedExpr.Proofs.Grammar.Legible
import GatedExpr.Proofs.Grammar.Lexemes
import GatedExpr.Proofs.Grammar.Literals
import GatedExpr.Proofs.Grammar.Locating
import GatedExpr.Proofs.Grammar.Matching
import GatedExpr.Proofs.Grammar.Nesting
import GatedExpr.Proofs.Grammar.NumberTexts
import GatedExpr.Proofs.Grammar.NumberTokens
import GatedExpr.Proofs.Grammar.Parsing
import GatedExpr.Proofs.Grammar.Pieces
import GatedExpr.Proofs.Grammar.Placement
import GatedExpr.Proofs.Grammar.Progress
import GatedExpr.Proofs.Grammar.Reading
import GatedExpr.Proofs.Grammar.Rebuilding
import GatedExpr.Proofs.Grammar.Recognition
import GatedExpr.Proofs.Grammar.References
import GatedExpr.Proofs.Grammar.Reparsing
import GatedExpr.Proofs.Grammar.Repetition
import GatedExpr.Proofs.Grammar.RoundBrackets
import GatedExpr.Proofs.Grammar.Rules
import GatedExpr.Proofs.Grammar.Shallow
import GatedExpr.Proofs.Grammar.Slices
import GatedExpr.Proofs.Grammar.Slicing
import GatedExpr.Proofs.Grammar.Spelling
import GatedExpr.Proofs.Grammar.Threads
import GatedExpr.Proofs.Grammar.TokenRules
import GatedExpr.Proofs.Grammar.Tokens
import GatedExpr.Proofs.Grammar.Traces
import GatedExpr.Proofs.Grammar.Transforms
import GatedExpr.Proofs.Grammar.Ways
import GatedExpr.Proofs.Grammar.Writing
import GatedExpr.Proofs.Grammar.Written
import GatedExpr.Proofs.Node
import GatedExpr.Proofs.Number.Bits
import GatedExpr.Proofs.Number.Decimals
import GatedExpr.Proofs.Number.Doubles
import GatedExpr.Proofs.Number.Exact
import GatedExpr.Proofs.Number.Finite
import GatedExpr.Proofs.Number.Nearest
import GatedExpr.Proofs.Number.Numerals
import GatedExpr.Proofs.Number.Rounding
import GatedExpr.Proofs.Number.Whole
import GatedExpr.Proofs.Precedence.Folding
import GatedExpr.Proofs.Precedence.Grouping
import GatedExpr.Proofs.Precedence.Parentheses
import GatedExpr.Proofs.Runner.Cache
import GatedExpr.Proofs.Runner.Excerpt
import GatedExpr.Proofs.Runner.Reporting
import GatedExpr.Proofs.Runner.Serving
import GatedExpr.Proofs.Runner.Transparency
import GatedExpr.Proofs.Session.Independence
import GatedExpr.Proofs.Session.Scripts
import GatedExpr.Proofs.Session.Turns
import GatedExpr.Proofs.Text.Digits
import GatedExpr.Proofs.Text.Lines
import GatedExpr.Proofs.Text.Locations
import GatedExpr.Proofs.Value.Alike
import GatedExpr.Proofs.Value.AlikeCoercions
import GatedExpr.Proofs.Value.AlikeIdentities
import GatedExpr.Proofs.Value.AlikeMembers
import GatedExpr.Proofs.Value.AlikePrinting
import GatedExpr.Proofs.Value.Arithmetic
import GatedExpr.Proofs.Value.Bounds
import GatedExpr.Proofs.Value.Datum
import GatedExpr.Proofs.Value.EqualityLaws
import GatedExpr.Proofs.Value.MemberKeys
import GatedExpr.Proofs.Value.OrderLaws
import GatedExpr.Proofs.Value.Remainders
import GatedExpr.Proofs.Value.Treeless
import GatedExpr.Proofs.Value.WrapAround
import GatedExpr.Runner.Basic
import GatedExpr.Runner.Cache
import GatedExpr.Runner.Report
import GatedExpr.Session.Basic
import GatedExpr.Session.CommandLine
import GatedExpr.Session.Files
import GatedExpr.Session.Repl
import GatedExpr.Session.Script
import GatedExpr.Table
import GatedExpr.Text.Blank
import GatedExpr.Text.Case
import GatedExpr.Text.Digit
import GatedExpr.Text.Lines
import GatedExpr.Text.Printable
import GatedExpr.Text.Quoted
import GatedExpr.Text.Ranges
import GatedExpr.Text.Search
import GatedExpr.Text.Slice
import GatedExpr.Text.Word
import GatedExpr.Value.Arithmetic
import GatedExpr.Value.Basic
import GatedExpr.Value.Coercion
import GatedExpr.Value.Display
import GatedExpr.Value.Equality
import GatedExpr.Value.Identity
import GatedExpr.Value.Member
import GatedExpr.Value.Printer
import GatedExpr.Proofs.Builtin.RepeatedDivision
import GatedExpr.Proofs.Grammar.Keeping
