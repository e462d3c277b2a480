import Montage.Cli.Basic
import Montage.Cli.CommandLine
import Montage.Cli.Trouble
import Montage.Config.Basic
import Montage.Config.Rules
import Montage.Content.Library
import Montage.Content.Query
import Montage.Content.Source
import Montage.Decimal.Basic
import Montage.Decimal.Layout
import Montage.Decimal.Literal
import Montage.Decimal.Shortest
import Montage.Failure
import Montage.Files.Basic
import Montage.Files.Path
import Montage.Json.Basic
import Montage.Json.Misfit
import Montage.Json.Node
import Montage.Json.Printer
import Montage.Json.Reader
import Montage.Log.Basic
import Montage.Log.Directive
import Montage.Log.Filter
import Montage.Log.Pattern
import Montage.Main
import Montage.Media.Arguments
import Montage.Media.ClipList
import Montage.Media.Filter
import Montage.Media.Recipe
import Montage.Media.Runner
import Montage.Media.Subtitles
import Montage.Media.Summary
import Montage.Media.Tool
import Montage.Media.Toolbox
import Montage.Plan.Assembly
import Montage.Plan.Correction
import Montage.Plan.Document
import Montage.Plan.Inserts
import Montage.Plan.Issue
import Montage.Plan.Naming
import Montage.Plan.Repair
import Montage.Program
import Montage.Run.Basic
import Montage.Run.Registry
import Montage.Run.Trace
import Montage.Scratch
import Montage.Slot.Basic
import Montage.Slot.Proposal
import Montage.Slot.Ranking
import Montage.Slot.Sections
import Montage.Task.Basic
import Montage.Task.Kind
import Montage.Task.Operation
import Montage.Task.Params
import Montage.Text.Alphanumeric
import Montage.Text.Blank
import Montage.Text.Bytes
import Montage.Text.Hex
import Montage.Text.Lowercase
import Montage.Text.Quoted
import Montage.Text.Ranges
import Montage.Text.Utf8
import Montage.Time.Binary
import Montage.Time.Exact
import Montage.Time.Scale
import Montage.Time.Stamp
import Montage.Time.Tenth
import Montage.Time.Text
import Montage.Transcript
import Montage.Proofs.Config.Rules
import Montage.Proofs.Plan.Inserts
import Montage.Proofs.Slot.Rules
import Montage.Proofs.Slot.Stable
import Montage.Proofs.Time.Tenth
import Montage.Proofs.Plan.Assembly
import Montage.Proofs.Plan.Repair
import Montage.Proofs.Content.Library
import Montage.Proofs.Run.Contents
import Montage.Proofs.Run.Lineage
import Montage.Proofs.Run.Order
import Montage.Proofs.Run.Source
import Montage.Proofs.Plan.Overlays
import Montage.Proofs.Plan.Backward
import Montage.Proofs.Run.Resolution
import Montage.Proofs.Cli.Repair
import Montage.Proofs.Plan.Cuts
import Montage.Proofs.Plan.Slots
import Montage.Proofs.Plan.References
import Montage.Proofs.Plan.Clean
import Montage.Proofs.Plan.Descent
import Montage.Proofs.Json.Rereading
import Montage.Proofs.Task.Rereading
import Montage.Proofs.Run.Early
import Montage.Proofs.Files.Landing
import Montage.Proofs.Scratch.Issued
import Montage.Proofs.Run.Taken
import Montage.Proofs.Run.Fresh
import Montage.Proofs.Files.Agree
import Montage.Proofs.Scratch.Spent
import Montage.Proofs.Run.Abreast
import Montage.Proofs.Run.Render
import Montage.Proofs.Run.Answers
import Montage.Proofs.Run.Without
import Montage.Proofs.Run.Closing
import Montage.Proofs.Plan.Between
import Montage.Proofs.Plan.Gaps
import Montage.Proofs.Plan.Reordering
import Montage.Proofs.Run.Accounting
import Montage.Proofs.Run.Ancestry
import Montage.Proofs.Run.Rewriting
import Montage.Proofs.Run.History
import Montage.Proofs.Plan.Diagnosis
import Montage.Proofs.Run.Missed
import Montage.Proofs.Json.Rekeying
import Montage.Proofs.Time.Text
import Montage.Proofs.Plan.Spelling
import Montage.Proofs.Text.Words
import Montage.Proofs.Time.Order
import Montage.Proofs.Slot.Unordered
import Montage.Proofs.Content.Query
import Montage.Proofs.Content.Search
import Montage.Proofs.Plan.Inputs
import Montage.Proofs.Media.Quoting
import Montage.Proofs.Media.Filter
import Montage.Proofs.Text.Lines
import Montage.Proofs.Media.ClipList
import Montage.Proofs.Decimal.Padded
import Montage.Proofs.Lists
import Montage.Proofs.Media.Subtitles
import Montage.Proofs.Media.Arguments
import Montage.Proofs.Run.Calls
import Montage.Proofs.Plan.Numbering
import Montage.Proofs.Time.Line
import Montage.Proofs.Time.Binary
import Montage.Proofs.Time.Whole
import Montage.Proofs.Time.Extended
import Montage.Proofs.Time.Stamp
import Montage.Proofs.Decimal.Digits
import Montage.Proofs.Transcript
import Montage.Proofs.Files.Order
import Montage.Proofs.Files.Under
import Montage.Proofs.Content.Ranking
import Montage.Proofs.Scratch.HandedOut
import Montage.Proofs.Slot.Speech
import Montage.Proofs.Plan.Grid
import Montage.Proofs.Media.Clock
