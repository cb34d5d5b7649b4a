import LiveProbe.Agent.Journal
import LiveProbe.Context.Basic
import LiveProbe.Metric.Store
import LiveProbe.Report.Trigger
import LiveProbe.Report.Value

/-!
# Reports of what leaves an agent

Metrics, snapshots, messages and spans.
-/

namespace LiveProbe

open Json

/-- The report of a histogram. -/
def Histogram.report (h : Histogram) : Json :=
  let s := h.stats
  ofMembers [("count", ofNat s.count), ("sum", ofFloat s.sum), ("avg", ofFloat s.avg),
    ("p50", ofFloat s.p50), ("p95", ofFloat s.p95), ("p99", ofFloat s.p99)]

/-- The report of gathered series. -/
def MetricStore.report (m : MetricStore) : Json :=
  ofMembers [("counters", ofMap ofFloat m.counters), ("gauges", ofMap ofFloat m.gauges),
    ("histograms", ofMap Histogram.report m.histograms),
    ("summaries", ofMap Histogram.report m.summaries), ("keys", ofStrings m.reported)]

namespace Snapshot

/-- What stands in a report for the number of the process. -/
def anyProcess : String := "<pid>"

/-- The attributes of the resource, with the number of the process left open. -/
def resourceAttributes (s : Snapshot) : SortedMap String :=
  if (s.resource.attributes.get? Resource.processKey).isSome then
    s.resource.attributes.insert Resource.processKey anyProcess
  else s.resource.attributes

/-- The ids that cannot be resolved. -/
def reportUnresolved (s : Snapshot) : Json := ofStrings s.unresolved

/-- The report of a snapshot, without its times. -/
def report (s : Snapshot) : Json :=
  ofMembers ([("id", .bool (Id128.isRendered s.id)), ("tracepoint", ofString s.tracepoint.id),
    ("open", .bool s.isOpen), ("frames", ofList StackFrame.toJson s.frames),
    ("watches", ofList WatchResult.toJson s.watches),
    ("attributes", ofMap AttributeValue.toJson s.attributes),
    ("var_lookup", lookupReport s.lookup.entries),
    ("resource", ofMembers [("attributes", ofMap ofString s.resourceAttributes)]),
    ("unresolved", s.reportUnresolved)] ++ optional "log_msg" ofString s.logMsg)

end Snapshot

/-- The report of a message. -/
def LogRecord.report (r : LogRecord) : Json :=
  .array [ofString r.message, ofString r.tracepoint, ofNat r.context.toNat]

/-- The report of an observation. -/
def MetricEmission.report (e : MetricEmission) : Json :=
  let s := e.sample
  ofMembers [("kind", ofString e.metricType.name), ("name", ofString s.qualifiedName),
    ("labels", ofMap ofString s.labels), ("namespace", ofOption ofString s.scope),
    ("help", ofOption ofString s.help), ("unit", ofOption ofString s.unit),
    ("value", ofFloat s.value)]

/-- The name of an answer to an event. -/
def Continuation.name : Continuation → String
  | .proceed => "Continue"
  | .detach => "Detach"

/-- The report of an answer: its name, and whether events keep coming. -/
def Continuation.report (k : Continuation) : Json := .array [ofString k.name, .bool (k == .proceed)]

namespace SpanEvent

/-- The report of a span that is opened or closed. -/
def report : SpanEvent → Json
  | opened handle request =>
    .array [ofString "open", ofString handle.name, ofString handle.tracepoint,
      ofNat request.context.toNat, ofMap ofString request.attributes]
  | closed handle => ofStrings ["close", handle.name]

/-- The report of a span that is written as a line. -/
def line : SpanEvent → Json
  | opened handle _ => ofStrings ["span opened", handle.name, handle.tracepoint]
  | closed handle => ofStrings ["span closed", handle.name, handle.tracepoint]

/-- The processor of the span. -/
def processor : SpanEvent → Nat
  | opened handle _ => handle.processor
  | closed handle => handle.processor

end SpanEvent

/-- The name of a stage in the life of a context. -/
def ContextState.name : ContextState → String
  | .opened => "Open"
  | .evaluating => "Evaluating"
  | .processing => "Processing"
  | .closing => "Closing"
  | .closed => "Closed"

namespace ActionResult

/-- What a result holds. -/
def detail : ActionResult → Json
  | log _ message => ofString message
  | snapshot s => .bool s.isOpen
  | metric _ => .null
  | span _ handles closeOn =>
    .array [ofNat handles.length, ofOption (fun l => ofString l.kind.describe) closeOn]

/-- The report of a result. -/
def report (r : ActionResult) : Json :=
  .array [ofString r.actionType.name, ofString r.tracepoint, r.detail]

end ActionResult
end LiveProbe
