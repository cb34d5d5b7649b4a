import LiveProbe.Config.Service
import LiveProbe.Diagnostic
import LiveProbe.Plugin.Basic
import LiveProbe.Snapshot.Basic

/-!
# Journal

What left the agent, in the order in which it did.
-/

namespace LiveProbe

/-- What the observed program is to do with a frame after an event. -/
inductive Continuation
  | proceed | detach
  deriving DecidableEq, Repr

/-- A message handed to the logger. -/
structure LogRecord where
  message : String
  tracepoint : String
  context : UInt64
  deriving DecidableEq, Repr

/-- An observation handed to a processor of metrics. -/
structure MetricEmission where
  processor : Nat
  metricType : MetricType
  sample : MetricSample

/-- The opening and the closing of a span by its processor. -/
inductive SpanEvent
  | opened (handle : SpanHandle) (request : SpanRequest)
  | closed (handle : SpanHandle)

/-- Everything that left the agent. -/
structure Journal where
  logs : Array LogRecord
  snapshots : Array Snapshot
  metrics : Array MetricEmission
  spans : Array SpanEvent
  /-- Answers to events that a collaborator delivered from within a call. -/
  reentries : Array Continuation
  notifications : Array (String × ConfigChange)
  diagnostics : Array Diagnostic

namespace Journal

/-- Nothing yet. -/
def empty : Journal := ⟨#[], #[], #[], #[], #[], #[], #[]⟩

/-- Adds a message. -/
def log (j : Journal) (r : LogRecord) : Journal := { j with logs := j.logs.push r }

/-- Adds a snapshot. -/
def keep (j : Journal) (s : Snapshot) : Journal := { j with snapshots := j.snapshots.push s }

/-- Adds an observation. -/
def emit (j : Journal) (e : MetricEmission) : Journal := { j with metrics := j.metrics.push e }

/-- Adds the opening or closing of a span. -/
def span (j : Journal) (e : SpanEvent) : Journal := { j with spans := j.spans.push e }

/-- Adds the answer to an event from within a call. -/
def reenter (j : Journal) (k : Continuation) : Journal :=
  { j with reentries := j.reentries.push k }

/-- Adds what a listener was told. -/
def notify (j : Journal) (listener : String) (change : ConfigChange) : Journal :=
  { j with notifications := j.notifications.push (listener, change) }

/-- Adds a diagnostic. -/
def report (j : Journal) (d : Diagnostic) : Journal :=
  { j with diagnostics := j.diagnostics.push d }

end Journal
end LiveProbe
