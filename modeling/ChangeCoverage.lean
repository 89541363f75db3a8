import ChangeCoverage.Alignment.Build
import ChangeCoverage.Alignment.Row
import ChangeCoverage.Branch.Condition
import ChangeCoverage.Branch.Extract
import ChangeCoverage.Branch.Header
import ChangeCoverage.Case.Basic
import ChangeCoverage.Case.Table
import ChangeCoverage.ChangedFile
import ChangeCoverage.Command.CaseReport
import ChangeCoverage.Command.Execution
import ChangeCoverage.Command.Listing
import ChangeCoverage.Command.Request
import ChangeCoverage.Command.Session
import ChangeCoverage.Command.View
import ChangeCoverage.CommandLine.Grammar
import ChangeCoverage.CommandLine.Progress
import ChangeCoverage.CommandLine.Reader
import ChangeCoverage.Config.Basic
import ChangeCoverage.Config.Load
import ChangeCoverage.Config.Read
import ChangeCoverage.Failure
import ChangeCoverage.Git.Basic
import ChangeCoverage.Git.Query
import ChangeCoverage.Glob.Basic
import ChangeCoverage.Glob.Expression
import ChangeCoverage.Glob.Parse
import ChangeCoverage.Main
import ChangeCoverage.Output.Json
import ChangeCoverage.Patch.Header
import ChangeCoverage.Patch.Hunks
import ChangeCoverage.Patch.Line
import ChangeCoverage.Patch.Section
import ChangeCoverage.Proofs.Alignment.Counting
import ChangeCoverage.Proofs.Alignment.Coverage
import ChangeCoverage.Proofs.Alignment.Order
import ChangeCoverage.Proofs.Alignment.Overflow
import ChangeCoverage.Proofs.Alignment.Run
import ChangeCoverage.Proofs.Alignment.Script
import ChangeCoverage.Proofs.Branch.BlankLine
import ChangeCoverage.Proofs.Branch.Condition
import ChangeCoverage.Proofs.Branch.Cut
import ChangeCoverage.Proofs.Branch.Extent
import ChangeCoverage.Proofs.Branch.Extraction
import ChangeCoverage.Proofs.Branch.Growth
import ChangeCoverage.Proofs.Branch.Header
import ChangeCoverage.Proofs.Branch.HeaderText
import ChangeCoverage.Proofs.Branch.HiddenText
import ChangeCoverage.Proofs.Branch.InlineBody
import ChangeCoverage.Proofs.Branch.Keyword
import ChangeCoverage.Proofs.Branch.LastLine
import ChangeCoverage.Proofs.Branch.Marks
import ChangeCoverage.Proofs.Branch.Parenthesis
import ChangeCoverage.Proofs.Branch.ReadingOrder
import ChangeCoverage.Proofs.Branch.Run
import ChangeCoverage.Proofs.Branch.Stack
import ChangeCoverage.Proofs.Branch.Sweep
import ChangeCoverage.Proofs.Branch.Transfer
import ChangeCoverage.Proofs.Case.FirstSeen
import ChangeCoverage.Proofs.Case.Table
import ChangeCoverage.Proofs.Command.CaseReport
import ChangeCoverage.Proofs.Command.Failure
import ChangeCoverage.Proofs.Command.Opening
import ChangeCoverage.Proofs.Command.Selection
import ChangeCoverage.Proofs.Git.Listing
import ChangeCoverage.Proofs.Git.Reply
import ChangeCoverage.Proofs.Patch.Changed
import ChangeCoverage.Proofs.Patch.Counting
import ChangeCoverage.Proofs.Patch.Header
import ChangeCoverage.Proofs.Patch.HeaderForm
import ChangeCoverage.Proofs.Patch.Loosened
import ChangeCoverage.Proofs.Patch.Numbering
import ChangeCoverage.Proofs.Patch.Overflow
import ChangeCoverage.Proofs.Patch.Partition
import ChangeCoverage.Proofs.Patch.Recovery
import ChangeCoverage.Proofs.Patch.Script
import ChangeCoverage.Proofs.Patch.Section
import ChangeCoverage.Proofs.Program.Cases
import ChangeCoverage.Proofs.Program.Line
import ChangeCoverage.Proofs.Program.Marks
import ChangeCoverage.Proofs.Program.Regions
import ChangeCoverage.Proofs.Program.Scopes
import ChangeCoverage.Proofs.Program.Syntax
import ChangeCoverage.Proofs.Source.BlankLine
import ChangeCoverage.Proofs.Source.Continuation
import ChangeCoverage.Proofs.Source.DeclaredName
import ChangeCoverage.Proofs.Source.Margin
import ChangeCoverage.Proofs.Source.MaskedCode
import ChangeCoverage.Proofs.Source.MethodHead
import ChangeCoverage.Proofs.Source.MethodName
import ChangeCoverage.Proofs.Source.Nesting
import ChangeCoverage.Proofs.Source.OpenBody
import ChangeCoverage.Proofs.Source.OpenScopes
import ChangeCoverage.Proofs.Source.ScopeStack
import ChangeCoverage.Proofs.Source.TextMask
import ChangeCoverage.Proofs.Source.Token
import ChangeCoverage.Proofs.Source.TokenMask
import ChangeCoverage.Proofs.Source.VerbatimLine
import ChangeCoverage.Proofs.Text.Cutting
import ChangeCoverage.Proofs.Text.Encoding
import ChangeCoverage.Proofs.Text.LineEnd
import ChangeCoverage.Proofs.Text.Lines
import ChangeCoverage.Proofs.Text.Number
import ChangeCoverage.Proofs.Text.Offset
import ChangeCoverage.Proofs.Text.Trim
import ChangeCoverage.Source.Declaration
import ChangeCoverage.Source.Mask
import ChangeCoverage.Source.Pattern
import ChangeCoverage.Source.Scope
import ChangeCoverage.Text.Blank
import ChangeCoverage.Text.Encoding
import ChangeCoverage.Text.Lines
import ChangeCoverage.Text.Number
import ChangeCoverage.Text.Offset
import ChangeCoverage.Text.Search
import ChangeCoverage.Text.Word
import ChangeCoverage.World.Basic
import ChangeCoverage.World.Recording
import ChangeCoverage.World.Run
import ChangeCoverage.World.Transcript
import ChangeCoverage.Yaml.Node
import ChangeCoverage.Yaml.Place
import ChangeCoverage.Yaml.Scalar
import ChangeCoverage.Yaml.Token
