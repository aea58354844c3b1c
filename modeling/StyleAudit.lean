import StyleAudit.Text.Blank
import StyleAudit.Text.Bytes
import StyleAudit.Text.Span
import StyleAudit.Text.Lines
import StyleAudit.Text.Edit
import StyleAudit.Selector.Set
import StyleAudit.Selector.Unused
import StyleAudit.Sheet.Token
import StyleAudit.Sheet.Token.Scan
import StyleAudit.Decimal.Shortest
import StyleAudit.Sheet.Numeral
import StyleAudit.Sheet.Token.Render
import StyleAudit.Sheet.Forest
import StyleAudit.Sheet.Problem
import StyleAudit.Sheet.Outline
import StyleAudit.Sheet.Extent
import StyleAudit.Sheet.Removal
import StyleAudit.Text.Identifier
import StyleAudit.Text.Hex
import StyleAudit.Script.Token
import StyleAudit.Script.Token.Scan
import StyleAudit.Script.Token.Spelling
import StyleAudit.Script.Tree
import StyleAudit.Script.Parse
import StyleAudit.Script.Grammar.Goal
import StyleAudit.Script.Grammar.Parameter
import StyleAudit.Script.Grammar.Type
import StyleAudit.Script.Grammar.Function
import StyleAudit.Script.Grammar.Class
import StyleAudit.Script.Grammar.Element
import StyleAudit.Script.Grammar.Expression
import StyleAudit.Script.Grammar.Declaration
import StyleAudit.Script.Grammar.Statement
import StyleAudit.Script.Grammar
import StyleAudit.Script.Usage
import StyleAudit.Markup.Reference.Table
import StyleAudit.Markup.Reference
import StyleAudit.Markup.Doctype
import StyleAudit.Markup.Token
import StyleAudit.Markup.Element
import StyleAudit.Markup.Dom
import StyleAudit.Markup.Category
import StyleAudit.Markup.Builder
import StyleAudit.Markup.Formatting
import StyleAudit.Markup.Rule.Head
import StyleAudit.Markup.Rule.Body
import StyleAudit.Markup.Rule.Table
import StyleAudit.Markup.Rule.Select
import StyleAudit.Markup.Rule.Foreign
import StyleAudit.Markup.Document
import StyleAudit.Files.Path
import StyleAudit.Files.Tree
import StyleAudit.Files.Kind
import StyleAudit.Ignore.Glob
import StyleAudit.Ignore.Rule
import StyleAudit.Files.Collect
import StyleAudit.Project.Settings
import StyleAudit.Project.Analysis
import StyleAudit.Project.Check
import StyleAudit.Report.Style
import StyleAudit.Report.Text
import StyleAudit.Report.Json
import StyleAudit.Schedule.Scheduler
import StyleAudit.Schedule.Monitor
import StyleAudit.Schedule.Trial
import StyleAudit.Schedule.Listen
import StyleAudit.Command.Arguments
import StyleAudit.Command.Run
import StyleAudit.Main
import StyleAudit.Proofs.Text.Cover
import StyleAudit.Proofs.Text.Lines
import StyleAudit.Proofs.Text.Offset
import StyleAudit.Proofs.Text.Replay
import StyleAudit.Proofs.Text.Splicing
import StyleAudit.Proofs.Text.Canonical
import StyleAudit.Proofs.Text.Encoding
import StyleAudit.Proofs.Text.Position
import StyleAudit.Proofs.Sheet.Blocks
import StyleAudit.Proofs.Sheet.Lookahead
import StyleAudit.Proofs.Sheet.Entries
import StyleAudit.Proofs.Sheet.Exactness
import StyleAudit.Proofs.Sheet.Geometry
import StyleAudit.Proofs.Sheet.Extent
import StyleAudit.Proofs.Sheet.Removal
import StyleAudit.Proofs.Sheet.Outcome
import StyleAudit.Proofs.Sheet.Spacing
import StyleAudit.Proofs.Sheet.Tree
import StyleAudit.Proofs.Sheet.Printed
import StyleAudit.Proofs.Sheet.Pruning
import StyleAudit.Proofs.Sheet.Showing
import StyleAudit.Proofs.Sheet.Seams
import StyleAudit.Proofs.Sheet.SelectorList
import StyleAudit.Proofs.Sheet.Shortening
import StyleAudit.Proofs.Sheet.Origin
import StyleAudit.Proofs.Sheet.Faults
import StyleAudit.Proofs.Sheet.Layout
import StyleAudit.Proofs.Sheet.SingleRemoval
import StyleAudit.Proofs.Sheet.Deletions
import StyleAudit.Proofs.Sheet.Locating
import StyleAudit.Proofs.Sheet.Pointing
import StyleAudit.Proofs.Sheet.Spelling
import StyleAudit.Proofs.Sheet.Relocation
import StyleAudit.Proofs.Sheet.Sequence
import StyleAudit.Proofs.Sheet.Invisible
import StyleAudit.Proofs.Text.Words
import StyleAudit.Proofs.Selector.Usage
import StyleAudit.Proofs.Selector.Shape
import StyleAudit.Proofs.Markup.Named
import StyleAudit.Proofs.Markup.Rules
import StyleAudit.Proofs.Markup.Forest
import StyleAudit.Proofs.Markup.TagNames
import StyleAudit.Proofs.Markup.Walk
import StyleAudit.Proofs.Script.Usage
import StyleAudit.Proofs.Selector.Tokens
import StyleAudit.Proofs.Markup.Page
import StyleAudit.Proofs.Script.Run
import StyleAudit.Proofs.Script.Operand
import StyleAudit.Proofs.Script.Element
import StyleAudit.Proofs.Script.Statement
import StyleAudit.Proofs.Script.Naming
import StyleAudit.Proofs.Selector.Agreement
import StyleAudit.Proofs.Files.Within
import StyleAudit.Proofs.Files.PathOrder
import StyleAudit.Proofs.Files.Writing
import StyleAudit.Proofs.Project.Contribution
import StyleAudit.Proofs.Project.Pass
import StyleAudit.Proofs.Project.Meaning
import StyleAudit.Proofs.Project.Audit
import StyleAudit.Proofs.Project.Fixing
import StyleAudit.Proofs.Sheet.Remains
import StyleAudit.Proofs.Files.Collecting
import StyleAudit.Proofs.Project.Recheck
import StyleAudit.Proofs.Schedule.Coalescing
import StyleAudit.Proofs.Schedule.Tickets
import StyleAudit.Proofs.Schedule.Listening
import StyleAudit.Proofs.Schedule.Waiting
import StyleAudit.Proofs.Ignore.Covering
import StyleAudit.Proofs.Files.Below
import StyleAudit.Proofs.Files.Exclusions
import StyleAudit.Proofs.Files.Way
