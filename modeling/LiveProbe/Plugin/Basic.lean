import LiveProbe.Config.Setting
import LiveProbe.Metric.Sample

/-!
# Plugins

Processors of metrics and spans, and the set of those that are loaded.

**Results.**
* `mem_activeMetrics`, `mem_activeSpans`: the processors that are called are those
  that initialize and are active.
-/

namespace LiveProbe

/-- What a processor of spans is asked to open. -/
structure SpanRequest where
  name : String
  context : UInt64
  tracepoint : String
  attributes : SortedMap String

/-- An open span. -/
structure SpanHandle where
  /-- Different for all spans. -/
  serial : Nat
  processor : Nat
  name : String
  tracepoint : String
  deriving DecidableEq, Repr

/-- Answers to a request for a span. -/
inductive SpanAnswer
  | opened | declined | panicked
  deriving DecidableEq, Repr

/-- A processor of metrics. -/
structure MetricProcessor where
  initializes : Bool
  active : Bool
  panics : MetricType → MetricSample → Bool

/-- A processor of spans. -/
structure SpanProcessor where
  initializes : Bool
  active : Bool
  answer : SpanRequest → SpanAnswer
  closePanics : SpanHandle → Bool

/-- The loaded processors with their positions in the settings. -/
structure Plugins where
  metrics : List (MetricProcessor × Nat)
  spans : List (SpanProcessor × Nat)

namespace Plugins

/-- No processors. -/
def empty : Plugins := ⟨[], []⟩

/-- Loads the processors that initialize. -/
def load (metrics : List MetricProcessor) (spans : List SpanProcessor) : Plugins where
  metrics := metrics.zipIdx.filter fun p => p.1.initializes
  spans := spans.zipIdx.filter fun p => p.1.initializes

/-- The number of processors that fail to initialize. -/
def failures (metrics : List MetricProcessor) (spans : List SpanProcessor) : Nat :=
  metrics.countP (fun p => !p.initializes) + spans.countP fun p => !p.initializes

/-- The processors of metrics that are called. -/
def activeMetrics (p : Plugins) : List (MetricProcessor × Nat) := p.metrics.filter fun m => m.1.active

/-- The processors of spans that are called. -/
def activeSpans (p : Plugins) : List (SpanProcessor × Nat) := p.spans.filter fun s => s.1.active

/-- Closing the span panics. -/
def closePanics (p : Plugins) (handle : SpanHandle) : Bool :=
  p.spans.any fun s => s.2 == handle.processor && s.1.closePanics handle

theorem mem_activeMetrics {metrics : List MetricProcessor} {spans : List SpanProcessor}
    {m : MetricProcessor × Nat} (h : m ∈ (load metrics spans).activeMetrics) :
    metrics[m.2]? = some m.1 ∧ m.1.initializes = true ∧ m.1.active = true := by
  simp only [activeMetrics, load, List.mem_filter] at h
  exact ⟨List.mem_zipIdx_iff_getElem?.1 h.1.1, h.1.2, h.2⟩

theorem mem_activeSpans {metrics : List MetricProcessor} {spans : List SpanProcessor}
    {s : SpanProcessor × Nat} (h : s ∈ (load metrics spans).activeSpans) :
    spans[s.2]? = some s.1 ∧ s.1.initializes = true ∧ s.1.active = true := by
  simp only [activeSpans, load, List.mem_filter] at h
  exact ⟨List.mem_zipIdx_iff_getElem?.1 h.1.1, h.1.2, h.2⟩

end Plugins
end LiveProbe
