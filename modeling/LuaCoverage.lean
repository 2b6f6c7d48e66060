import LuaCoverage.Analysis.Basic
import LuaCoverage.Analysis.Cached
import LuaCoverage.Analysis.Site
import LuaCoverage.Cache
import LuaCoverage.CommandLine.Arguments
import LuaCoverage.CommandLine.Command
import LuaCoverage.CommandLine.Counts
import LuaCoverage.CommandLine.Run
import LuaCoverage.Config.Basic
import LuaCoverage.Config.Placeholder
import LuaCoverage.Config.Problem
import LuaCoverage.Config.Reading
import LuaCoverage.Console.Output
import LuaCoverage.Console.Table
import LuaCoverage.Counter.Store
import LuaCoverage.Counter.Tally
import LuaCoverage.Data.Convert
import LuaCoverage.Data.Show
import LuaCoverage.Data.Table
import LuaCoverage.Data.Value
import LuaCoverage.Decimal.Binary64
import LuaCoverage.Decimal.Integer
import LuaCoverage.Decimal.Shortest
import LuaCoverage.Diagnostic
import LuaCoverage.Digest.Sha256
import LuaCoverage.Dump.Basic
import LuaCoverage.Dump.Load
import LuaCoverage.Engine.Basic
import LuaCoverage.Engine.Results
import LuaCoverage.Engine.Session
import LuaCoverage.Files
import LuaCoverage.Host.Basic
import LuaCoverage.Host.Directory
import LuaCoverage.Host.Flaky
import LuaCoverage.Host.Interpreter
import LuaCoverage.Host.Memory
import LuaCoverage.Instrument.Basic
import LuaCoverage.Instrument.Call
import LuaCoverage.Instrument.Prelude
import LuaCoverage.Json.Basic
import LuaCoverage.Json.Printer
import LuaCoverage.Json.Reader
import LuaCoverage.Json.Text
import LuaCoverage.Lua.Chunk
import LuaCoverage.Lua.Cursor
import LuaCoverage.Lua.Dialect
import LuaCoverage.Lua.Grammar.Basic
import LuaCoverage.Lua.Grammar.Expressions
import LuaCoverage.Lua.Grammar.Statements
import LuaCoverage.Lua.Grammar.Types
import LuaCoverage.Lua.Lexeme
import LuaCoverage.Lua.Node
import LuaCoverage.Lua.Walk
import LuaCoverage.Main
import LuaCoverage.Path
import LuaCoverage.Probe.Basic
import LuaCoverage.Probe.Encoding
import LuaCoverage.Probe.Manifest
import LuaCoverage.Probe.ManifestFile
import LuaCoverage.Probe.Position
import LuaCoverage.Proofs.Analysis.Bracket
import LuaCoverage.Proofs.Analysis.Bracketed
import LuaCoverage.Proofs.Analysis.Branching
import LuaCoverage.Proofs.Analysis.Cached
import LuaCoverage.Proofs.Analysis.Chained
import LuaCoverage.Proofs.Analysis.Depth
import LuaCoverage.Proofs.Analysis.Entered
import LuaCoverage.Proofs.Analysis.Matching
import LuaCoverage.Proofs.Analysis.Ordered
import LuaCoverage.Proofs.Analysis.Shifted
import LuaCoverage.Proofs.Cache
import LuaCoverage.Proofs.CommandLine.Endings
import LuaCoverage.Proofs.Config.Complaint
import LuaCoverage.Proofs.Config.Filled
import LuaCoverage.Proofs.Config.Nested
import LuaCoverage.Proofs.Config.Reread
import LuaCoverage.Proofs.Counter.History
import LuaCoverage.Proofs.Counter.Reading
import LuaCoverage.Proofs.Counter.Recorder
import LuaCoverage.Proofs.Counter.Shape
import LuaCoverage.Proofs.Counter.Shared
import LuaCoverage.Proofs.Counter.Slot
import LuaCoverage.Proofs.Data.Complaint
import LuaCoverage.Proofs.Data.Decoders
import LuaCoverage.Proofs.Data.Table
import LuaCoverage.Proofs.Data.Texts
import LuaCoverage.Proofs.Dump.Agreement
import LuaCoverage.Proofs.Dump.Conserved
import LuaCoverage.Proofs.Dump.Marked
import LuaCoverage.Proofs.Dump.Stopped
import LuaCoverage.Proofs.Engine.Accounted
import LuaCoverage.Proofs.Engine.Consistency
import LuaCoverage.Proofs.Engine.Finished
import LuaCoverage.Proofs.Engine.Framed
import LuaCoverage.Proofs.Engine.Instrumented
import LuaCoverage.Proofs.Engine.Isolated
import LuaCoverage.Proofs.Engine.Kept
import LuaCoverage.Proofs.Engine.Output
import LuaCoverage.Proofs.Engine.Overlaid
import LuaCoverage.Proofs.Engine.TakenBack
import LuaCoverage.Proofs.Engine.View
import LuaCoverage.Proofs.Files
import LuaCoverage.Proofs.Host.Listed
import LuaCoverage.Proofs.Host.Loading
import LuaCoverage.Proofs.Host.Overlay
import LuaCoverage.Proofs.Host.Watched
import LuaCoverage.Proofs.Instrument.Erasure
import LuaCoverage.Proofs.Instrument.Hits
import LuaCoverage.Proofs.Instrument.Literal
import LuaCoverage.Proofs.Instrument.OneLine
import LuaCoverage.Proofs.Instrument.Reparsed
import LuaCoverage.Proofs.Instrument.Weave
import LuaCoverage.Proofs.Instrument.WellFormed
import LuaCoverage.Proofs.Json.Printed
import LuaCoverage.Proofs.Lua.Front
import LuaCoverage.Proofs.Lua.Moved.Grammar
import LuaCoverage.Proofs.Lua.Moved.Lexeme
import LuaCoverage.Proofs.Lua.Moved.Reader
import LuaCoverage.Proofs.Lua.Name
import LuaCoverage.Proofs.Lua.Nested
import LuaCoverage.Proofs.Lua.Preorder
import LuaCoverage.Proofs.Lua.Spine
import LuaCoverage.Proofs.Path
import LuaCoverage.Proofs.Probe.Position
import LuaCoverage.Proofs.Probe.Saved
import LuaCoverage.Proofs.Report.Exact
import LuaCoverage.Proofs.Report.Fitting
import LuaCoverage.Proofs.Report.Lines
import LuaCoverage.Proofs.Report.RoundTrip
import LuaCoverage.Proofs.Report.Shifted
import LuaCoverage.Proofs.Report.Valid
import LuaCoverage.Proofs.Scope.Normal
import LuaCoverage.Proofs.Scope.Segments
import LuaCoverage.Proofs.Stats.Consumers
import LuaCoverage.Proofs.Stats.Module
import LuaCoverage.Proofs.Stats.Numbered
import LuaCoverage.Proofs.Stats.Options
import LuaCoverage.Proofs.Stats.Order
import LuaCoverage.Proofs.Stats.Ranked
import LuaCoverage.Report.Build
import LuaCoverage.Report.Lines
import LuaCoverage.Report.Reading
import LuaCoverage.Report.Record
import LuaCoverage.Scope.Basic
import LuaCoverage.Scope.Glob
import LuaCoverage.Stats.Basic
import LuaCoverage.Stats.Flat
import LuaCoverage.Text.Base64
import LuaCoverage.Text.Class.Basic
import LuaCoverage.Text.Class.Identifier
import LuaCoverage.Text.Class.Printable
import LuaCoverage.Text.Class.Width
import LuaCoverage.Text.Class.Word
import LuaCoverage.Text.Ends
import LuaCoverage.Text.Literal
import LuaCoverage.Text.Order
import LuaCoverage.Text.Utf8
import LuaCoverage.Yaml.Block
import LuaCoverage.Yaml.Fault
import LuaCoverage.Yaml.Kind
import LuaCoverage.Yaml.Layout
import LuaCoverage.Yaml.Node
import LuaCoverage.Yaml.Number
import LuaCoverage.Yaml.Place
import LuaCoverage.Yaml.Plain
import LuaCoverage.Yaml.Printer
import LuaCoverage.Yaml.Property
import LuaCoverage.Yaml.Quoted
import LuaCoverage.Yaml.Reader
import LuaCoverage.Yaml.Style
import LuaCoverage.Yaml.Timestamp
