import LiveProbe.Agent.Hook
import LiveProbe.Agent.Journal
import LiveProbe.Agent.Lifecycle
import LiveProbe.Agent.State
import LiveProbe.Budget
import LiveProbe.Capture.Config
import LiveProbe.Config.Agent
import LiveProbe.Config.Codec
import LiveProbe.Config.Error
import LiveProbe.Config.Service
import LiveProbe.Config.Setting
import LiveProbe.Config.Tracepoint
import LiveProbe.Context.Actions
import LiveProbe.Context.Basic
import LiveProbe.Context.Closing
import LiveProbe.Context.Template
import LiveProbe.Decimal.Binary
import LiveProbe.Decimal.Fixed
import LiveProbe.Decimal.Place
import LiveProbe.Decimal.Reader
import LiveProbe.Decimal.Shortest
import LiveProbe.Delivery.Error
import LiveProbe.Delivery.Pool
import LiveProbe.Diagnostic
import LiveProbe.Expr.Cache
import LiveProbe.Expr.Error
import LiveProbe.Expr.Eval
import LiveProbe.Expr.Lexer
import LiveProbe.Expr.Parser
import LiveProbe.Expr.Syntax
import LiveProbe.Expr.Token
import LiveProbe.Frame.Host
import LiveProbe.Frame.InApp
import LiveProbe.Frame.Stack
import LiveProbe.Hash.Sip
import LiveProbe.Id
import LiveProbe.Json.Basic
import LiveProbe.Json.Decode
import LiveProbe.Json.Printer
import LiveProbe.Json.Quoted
import LiveProbe.Json.Reader
import LiveProbe.Limits
import LiveProbe.Metric.Histogram
import LiveProbe.Metric.Sample
import LiveProbe.Metric.Store
import LiveProbe.Plugin.Basic
import LiveProbe.Proofs.Agent.Configuring
import LiveProbe.Proofs.Agent.Detaching
import LiveProbe.Proofs.Agent.FireCount
import LiveProbe.Proofs.Agent.Firings
import LiveProbe.Proofs.Agent.Handing
import LiveProbe.Proofs.Agent.Interference
import LiveProbe.Proofs.Agent.LineEnds
import LiveProbe.Proofs.Agent.SpanLedger
import LiveProbe.Proofs.Agent.Spans
import LiveProbe.Proofs.Agent.Working
import LiveProbe.Proofs.Capture.Merging
import LiveProbe.Proofs.Config.RoundTrip
import LiveProbe.Proofs.Config.Validation
import LiveProbe.Proofs.Context.Apparent
import LiveProbe.Proofs.Context.Deliveries
import LiveProbe.Proofs.Context.Delivery
import LiveProbe.Proofs.Context.Idle
import LiveProbe.Proofs.Context.Messages
import LiveProbe.Proofs.Context.Processing
import LiveProbe.Proofs.Context.Reopening
import LiveProbe.Proofs.Context.Resolved
import LiveProbe.Proofs.Context.Results
import LiveProbe.Proofs.Context.Spans
import LiveProbe.Proofs.Context.Steps
import LiveProbe.Proofs.Context.Uniform
import LiveProbe.Proofs.Decimal.Exact
import LiveProbe.Proofs.Delivery.Books
import LiveProbe.Proofs.Delivery.Session
import LiveProbe.Proofs.Expr.Accepting
import LiveProbe.Proofs.Expr.Caching
import LiveProbe.Proofs.Expr.Chaining
import LiveProbe.Proofs.Expr.Deriving
import LiveProbe.Proofs.Expr.Frames
import LiveProbe.Proofs.Expr.Grammar
import LiveProbe.Proofs.Expr.Growing
import LiveProbe.Proofs.Expr.Height
import LiveProbe.Proofs.Expr.Integers
import LiveProbe.Proofs.Expr.Joining
import LiveProbe.Proofs.Expr.Membership
import LiveProbe.Proofs.Expr.Reading
import LiveProbe.Proofs.Expr.ReadingBack
import LiveProbe.Proofs.Expr.Recognition
import LiveProbe.Proofs.Expr.Siblings
import LiveProbe.Proofs.Expr.Spelling
import LiveProbe.Proofs.Expr.Tallest
import LiveProbe.Proofs.Expr.Uniform
import LiveProbe.Proofs.Frame.Collecting
import LiveProbe.Proofs.Frame.Root
import LiveProbe.Proofs.Json.RoundTrip
import LiveProbe.Proofs.Lists
import LiveProbe.Proofs.Metric.Series
import LiveProbe.Proofs.Text.Numeral
import LiveProbe.Proofs.Trigger.Attempts
import LiveProbe.Proofs.Trigger.CarryOver
import LiveProbe.Proofs.Trigger.Honouring
import LiveProbe.Proofs.Trigger.Matching
import LiveProbe.Proofs.Trigger.Names
import LiveProbe.Proofs.Trigger.Pending
import LiveProbe.Proofs.Trigger.Rebuild
import LiveProbe.Proofs.Trigger.Suffix
import LiveProbe.Proofs.Value.Alike
import LiveProbe.Proofs.Value.Comparing
import LiveProbe.Proofs.Value.Copies
import LiveProbe.Proofs.Value.Layout
import LiveProbe.Proofs.Value.Matching
import LiveProbe.Proofs.Value.Mutating
import LiveProbe.Proofs.Value.Plain
import LiveProbe.Proofs.Value.Printing
import LiveProbe.Proofs.Value.Symmetry
import LiveProbe.Proofs.Variable.Capture
import LiveProbe.Proofs.Variable.Distance
import LiveProbe.Proofs.Variable.Exact
import LiveProbe.Proofs.Variable.Levels
import LiveProbe.Proofs.Variable.Numbering
import LiveProbe.Proofs.Variable.Omissions
import LiveProbe.Proofs.Variable.Room
import LiveProbe.Proofs.Variable.Uniform
import LiveProbe.Proofs.Variable.Walking
import LiveProbe.Report.Basic
import LiveProbe.Report.Config
import LiveProbe.Report.Expression
import LiveProbe.Report.Fault
import LiveProbe.Report.Journal
import LiveProbe.Report.Trigger
import LiveProbe.Report.Value
import LiveProbe.Snapshot.Basic
import LiveProbe.Snapshot.Codec
import LiveProbe.SortedMap
import LiveProbe.Text.Blank
import LiveProbe.Text.Lossy
import LiveProbe.Text.Numeral
import LiveProbe.Trigger.Action
import LiveProbe.Trigger.Callback
import LiveProbe.Trigger.Index
import LiveProbe.Trigger.Location
import LiveProbe.Value.Basic
import LiveProbe.Value.Equality
import LiveProbe.Value.Heap
import LiveProbe.Value.Number
import LiveProbe.Value.Text
import LiveProbe.Variable.Record
import LiveProbe.Variable.Table
import LiveProbe.Variable.Walk
