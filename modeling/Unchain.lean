import Unchain.Binding.Declare
import Unchain.Binding.Resolve
import Unchain.Binding.Table
import Unchain.Chain.Group
import Unchain.Chain.Link
import Unchain.Chain.Root
import Unchain.Chain.Successors
import Unchain.CommandLine.Arguments
import Unchain.CommandLine.Disk
import Unchain.CommandLine.LogFormat
import Unchain.CommandLine.Outcome
import Unchain.CommandLine.Path
import Unchain.CommandLine.Run
import Unchain.Config.Json5
import Unchain.Config.Names
import Unchain.Conversion.CodeFix
import Unchain.Conversion.File
import Unchain.Conversion.Function
import Unchain.Conversion.Plan
import Unchain.Conversion.Search
import Unchain.Conversion.Splice
import Unchain.Conversion.Suggestion
import Unchain.Diagnostic
import Unchain.Entries
import Unchain.Grammar.Expressions
import Unchain.Grammar.Functions
import Unchain.Grammar.SourceFile
import Unchain.Grammar.State
import Unchain.Grammar.Statements
import Unchain.Grammar.Types
import Unchain.Limits
import Unchain.Main
import Unchain.Naming.Choose
import Unchain.Naming.Handlers
import Unchain.Naming.Register
import Unchain.Naming.Rename
import Unchain.Naming.Writes
import Unchain.Printer.Declarations
import Unchain.Printer.Expressions
import Unchain.Printer.Level
import Unchain.Printer.Print
import Unchain.Printer.Statements
import Unchain.Printer.Writer
import Unchain.Promise.Names
import Unchain.Promise.Oracle
import Unchain.Promise.TypeText
import Unchain.Proofs.Binding.Declared
import Unchain.Proofs.Binding.Owned
import Unchain.Proofs.Binding.Resolved
import Unchain.Proofs.Binding.Uses
import Unchain.Proofs.Chain.Copies
import Unchain.Proofs.Chain.Flags
import Unchain.Proofs.Chain.Glued
import Unchain.Proofs.Chain.Grafts
import Unchain.Proofs.Chain.Homes
import Unchain.Proofs.Chain.Layers
import Unchain.Proofs.Chain.Marked
import Unchain.Proofs.Chain.Outline
import Unchain.Proofs.Chain.Roots
import Unchain.Proofs.Chain.Runs
import Unchain.Proofs.Chain.Spliced
import Unchain.Proofs.Chain.Stable
import Unchain.Proofs.Conversion.Accepted
import Unchain.Proofs.Conversion.Edits
import Unchain.Proofs.Conversion.Entered
import Unchain.Proofs.Conversion.Returned
import Unchain.Proofs.Conversion.Written
import Unchain.Proofs.Execution.Run
import Unchain.Proofs.Execution.Trace
import Unchain.Proofs.Grammar.Expressions
import Unchain.Proofs.Grammar.SourceFile
import Unchain.Proofs.Grammar.Stands
import Unchain.Proofs.Naming.Distinct
import Unchain.Proofs.Naming.Entered
import Unchain.Proofs.Naming.Minted
import Unchain.Proofs.Naming.Renamed
import Unchain.Proofs.Naming.Respelled
import Unchain.Proofs.Naming.Sites
import Unchain.Proofs.Placing.Expressions
import Unchain.Proofs.Placing.Functions
import Unchain.Proofs.Placing.Operators
import Unchain.Proofs.Placing.SourceFile
import Unchain.Proofs.Promise.Derives
import Unchain.Proofs.Promise.Search
import Unchain.Proofs.Promise.Settle
import Unchain.Proofs.Scoping.Expressions
import Unchain.Proofs.Scoping.Findings
import Unchain.Proofs.Scoping.Functions
import Unchain.Proofs.Scoping.SourceFile
import Unchain.Proofs.Scoping.Statements
import Unchain.Proofs.Syntax.Growth
import Unchain.Proofs.Syntax.Quiet
import Unchain.Proofs.Syntax.Rows
import Unchain.Proofs.Syntax.Scope
import Unchain.Proofs.Term.Basic
import Unchain.Proofs.Term.Depth
import Unchain.Proofs.Term.LeftHand
import Unchain.Proofs.Term.Operators
import Unchain.Proofs.Term.Print
import Unchain.Proofs.Term.RoundTrip
import Unchain.Proofs.Text.Edits
import Unchain.Proofs.Text.Lines
import Unchain.Proofs.Text.Positions
import Unchain.Proofs.Token.Quoted
import Unchain.Proofs.Token.Session
import Unchain.Proofs.Token.Spelled
import Unchain.Proofs.Token.Tiling
import Unchain.Proofs.Token.Trivia
import Unchain.Proofs.Unroll.Awaited
import Unchain.Proofs.Unroll.Callbacks
import Unchain.Proofs.Unroll.Chains
import Unchain.Proofs.Unroll.Delivery
import Unchain.Proofs.Unroll.Exclusion
import Unchain.Proofs.Unroll.Exits
import Unchain.Proofs.Unroll.Inlined
import Unchain.Proofs.Unroll.Lookups
import Unchain.Proofs.Unroll.Refines
import Unchain.Proofs.Unroll.Settles
import Unchain.Proofs.Unroll.Steps
import Unchain.Proofs.Unroll.Undo
import Unchain.Report.Json
import Unchain.Report.Render
import Unchain.Report.Style
import Unchain.Syntax.Node
import Unchain.Syntax.Scope
import Unchain.Syntax.Tree
import Unchain.Text.Alphabet
import Unchain.Text.Edit
import Unchain.Text.Find
import Unchain.Text.LineMap
import Unchain.Text.Marks
import Unchain.Text.Offset
import Unchain.Text.Replace
import Unchain.Text.Sorted
import Unchain.Text.Span
import Unchain.Text.Split
import Unchain.Token.Alphabet
import Unchain.Token.Escape
import Unchain.Token.Kind
import Unchain.Token.Lexeme
import Unchain.Token.Quote
import Unchain.Token.Scanner
import Unchain.Unroll.Handler
import Unchain.Unroll.Link
import Unchain.Unroll.State
import Unchain.Unroll.Write
