import AnswerSet.Answer
import AnswerSet.Atom.Arguments
import AnswerSet.Atom.Basic
import AnswerSet.Atom.Build
import AnswerSet.Atom.Decode
import AnswerSet.Bindings
import AnswerSet.CommandLine.Arguments
import AnswerSet.CommandLine.Display
import AnswerSet.CommandLine.FileTree
import AnswerSet.CommandLine.Session
import AnswerSet.CommandLine.Table
import AnswerSet.Error
import AnswerSet.Json.Basic
import AnswerSet.Json.Print
import AnswerSet.Json.Token
import AnswerSet.Keyword
import AnswerSet.Literal.Basic
import AnswerSet.Literal.Render
import AnswerSet.Main
import AnswerSet.Program
import AnswerSet.Proofs.Application
import AnswerSet.Proofs.Built
import AnswerSet.Proofs.Decoding
import AnswerSet.Proofs.Injection
import AnswerSet.Proofs.Leaves
import AnswerSet.Proofs.Lexing
import AnswerSet.Proofs.Lines
import AnswerSet.Proofs.Nesting
import AnswerSet.Proofs.NormalForm
import AnswerSet.Proofs.Pieces
import AnswerSet.Proofs.RoundTrip
import AnswerSet.Proofs.Scalars
import AnswerSet.Proofs.Scanning
import AnswerSet.Proofs.Trimming
import AnswerSet.Proofs.Weaving
import AnswerSet.Report
import AnswerSet.Rule.Basic
import AnswerSet.Rule.Render
import AnswerSet.Schema
import AnswerSet.SolveResult
import AnswerSet.Solver.Call
import AnswerSet.Solver.Config
import AnswerSet.Solver.Run
import AnswerSet.Solver.SymbolTable
import AnswerSet.Term
import AnswerSet.Text.Blank
import AnswerSet.Text.Columns
import AnswerSet.Text.Emoji
import AnswerSet.Text.Integer
import AnswerSet.Text.Ligature
import AnswerSet.Text.Lowercase
import AnswerSet.Text.Quoted
import AnswerSet.Text.Split
import AnswerSet.Text.Width
import AnswerSet.Proofs.Typing
import AnswerSet.Proofs.Construction
import AnswerSet.Proofs.Occurrences
import AnswerSet.Proofs.Membership
import AnswerSet.Proofs.Remembering
import AnswerSet.Proofs.Faults
import AnswerSet.Proofs.Grounding
import AnswerSet.Proofs.JsonReading
import AnswerSet.Proofs.JsonPrinting
import AnswerSet.Proofs.Reporting
import AnswerSet.Proofs.Solving
import AnswerSet.Proofs.StatusLine
import AnswerSet.Proofs.Shape
import AnswerSet.Proofs.Settings
import AnswerSet.Proofs.Requirements
import AnswerSet.Proofs.Balance
import AnswerSet.Proofs.Freshness
import AnswerSet.Proofs.Acceptance
import AnswerSet.Proofs.Bodies
import AnswerSet.Proofs.Expressions
import AnswerSet.Proofs.TermSyntax
import AnswerSet.Proofs.Intervals
import AnswerSet.Proofs.BestAnswer
import AnswerSet.Proofs.Escaping
import AnswerSet.Proofs.Diagnosis
import AnswerSet.Proofs.Widening
import AnswerSet.Proofs.Directories
