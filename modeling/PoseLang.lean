import PoseLang.Cli.Arguments
import PoseLang.Cli.Execute
import PoseLang.Cli.Summary
import PoseLang.Code.Op
import PoseLang.Code.Program
import PoseLang.Code.Routine
import PoseLang.Code.Verify
import PoseLang.Decimal.Binary
import PoseLang.Decimal.Format
import PoseLang.Decimal.Reader
import PoseLang.Decimal.Shortest
import PoseLang.Diagnostic
import PoseLang.Dialect
import PoseLang.Expr.Basic
import PoseLang.Expr.Parser
import PoseLang.FileTree
import PoseLang.Item.Basic
import PoseLang.Item.Parser
import PoseLang.Item.Reading
import PoseLang.Json.Basic
import PoseLang.Json.Parser
import PoseLang.Json.Printer
import PoseLang.Layout
import PoseLang.Location
import PoseLang.Lowering.Builder
import PoseLang.Lowering.Context
import PoseLang.Lowering.Definition
import PoseLang.Lowering.Error
import PoseLang.Lowering.Expr
import PoseLang.Machine.Fault
import PoseLang.Machine.Host
import PoseLang.Machine.Run
import PoseLang.Machine.Step
import PoseLang.Machine.Value
import PoseLang.Main
import PoseLang.Operators
import PoseLang.ParseError
import PoseLang.Proofs.Code.Edits
import PoseLang.Proofs.Code.Program
import PoseLang.Proofs.Decimal.Interval
import PoseLang.Proofs.Decimal.Nearest
import PoseLang.Proofs.Decimal.RoundTrip
import PoseLang.Proofs.Expr.Complete
import PoseLang.Proofs.Expr.Ends
import PoseLang.Proofs.Expr.Grammar
import PoseLang.Proofs.Expr.Parts
import PoseLang.Proofs.Expr.Pending
import PoseLang.Proofs.Expr.Rendering
import PoseLang.Proofs.Expr.Sound
import PoseLang.Proofs.Expr.Unambiguous
import PoseLang.Proofs.Expr.Unplaced
import PoseLang.Proofs.Item.Agreement
import PoseLang.Proofs.Item.Lookahead
import PoseLang.Proofs.Item.Reading
import PoseLang.Proofs.Item.Recovery
import PoseLang.Proofs.Item.Separator
import PoseLang.Proofs.Item.Unplaced
import PoseLang.Proofs.Lowering.Accepted
import PoseLang.Proofs.Lowering.Assigned
import PoseLang.Proofs.Lowering.Atomic
import PoseLang.Proofs.Lowering.Dependence
import PoseLang.Proofs.Lowering.Failures
import PoseLang.Proofs.Lowering.Filled
import PoseLang.Proofs.Lowering.Flawless
import PoseLang.Proofs.Lowering.Frame
import PoseLang.Proofs.Lowering.Growth
import PoseLang.Proofs.Lowering.Labels
import PoseLang.Proofs.Lowering.Lowered
import PoseLang.Proofs.Lowering.Placed
import PoseLang.Proofs.Lowering.Predecessors
import PoseLang.Proofs.Lowering.Resolved
import PoseLang.Proofs.Lowering.Settled
import PoseLang.Proofs.Lowering.Shape
import PoseLang.Proofs.Lowering.Steps
import PoseLang.Proofs.Lowering.Strict
import PoseLang.Proofs.Lowering.Typing
import PoseLang.Proofs.Lowering.Unplaced
import PoseLang.Proofs.Lowering.Within
import PoseLang.Proofs.Machine.Addresses
import PoseLang.Proofs.Machine.Budget
import PoseLang.Proofs.Machine.Effects
import PoseLang.Proofs.Machine.Engine
import PoseLang.Proofs.Machine.History
import PoseLang.Proofs.Machine.Reaches
import PoseLang.Proofs.Machine.Recursion
import PoseLang.Proofs.Machine.Requests
import PoseLang.Proofs.Machine.Values
import PoseLang.Proofs.Machine.Verified
import PoseLang.Proofs.Meaning.Calls
import PoseLang.Proofs.Meaning.Compiled
import PoseLang.Proofs.Meaning.Evaluation
import PoseLang.Proofs.Meaning.Filling
import PoseLang.Proofs.Meaning.Realizes
import PoseLang.Proofs.Meaning.Simulation
import PoseLang.Proofs.Meaning.Sources
import PoseLang.Proofs.Meaning.Standing
import PoseLang.Proofs.Session.Building
import PoseLang.Proofs.Session.Commuting
import PoseLang.Proofs.Session.Growth
import PoseLang.Proofs.Session.InStep
import PoseLang.Proofs.Session.Layout
import PoseLang.Proofs.Session.Reached
import PoseLang.Proofs.Session.Records
import PoseLang.Proofs.Session.Reported
import PoseLang.Proofs.Session.Separator
import PoseLang.Proofs.Session.Sound
import PoseLang.Proofs.Settings.Usable
import PoseLang.Proofs.Token.Lexemes
import PoseLang.Proofs.Token.Lines
import PoseLang.Script
import PoseLang.Session.Basic
import PoseLang.Session.Log
import PoseLang.Session.Report
import PoseLang.Settings.Basic
import PoseLang.Settings.Json
import PoseLang.Settings.Load
import PoseLang.Text.Blank
import PoseLang.Text.CharWidth
import PoseLang.Text.Emoji
import PoseLang.Text.Grid
import PoseLang.Text.Ignorable
import PoseLang.Text.Mark
import PoseLang.Text.Opening
import PoseLang.Text.Quoted
import PoseLang.Text.Ranges
import PoseLang.Text.Shown
import PoseLang.Text.Width
import PoseLang.Token.Basic
import PoseLang.Token.Lexer
