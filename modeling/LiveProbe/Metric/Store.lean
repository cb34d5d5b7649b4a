import LiveProbe.Config.Setting
import LiveProbe.Metric.Histogram
import LiveProbe.Metric.Sample

/-!
# Metrics in memory

Observations gathered by kind and series. Counters add up, gauges keep the last
value, histograms and summaries count under bounds.

**Results.**
* `record_apart`: an observation of one series changes no other counter.
-/

namespace LiveProbe

/-- The gathered series by their keys. -/
structure MetricStore where
  counters : SortedMap Float
  gauges : SortedMap Float
  histograms : SortedMap Histogram
  summaries : SortedMap Histogram

namespace MetricStore

/-- No observations. -/
def empty : MetricStore := ⟨.empty, .empty, .empty, .empty⟩

/-- The counter of a series after an observation. -/
def addTo (m : SortedMap Float) (s : MetricSample) : SortedMap Float :=
  m.insert s.seriesKey <|
    match m.get? s.seriesKey with
    | some total => total + s.value
    | none => s.value

/-- The histogram of a series after an observation. -/
def observeIn (m : SortedMap Histogram) (s : MetricSample) : SortedMap Histogram :=
  m.insert s.seriesKey (((m.get? s.seriesKey).getD .empty).observe s.value)

/-- Gathers an observation. -/
def record (m : MetricStore) (t : MetricType) (s : MetricSample) : MetricStore :=
  match t with
  | .counter => { m with counters := addTo m.counters s }
  | .gauge => { m with gauges := m.gauges.insert s.seriesKey s.value }
  | .histogram => { m with histograms := observeIn m.histograms s }
  | .summary => { m with summaries := observeIn m.summaries s }

/-- The names of the parts of a report; a part without series is left out. -/
def reported (m : MetricStore) : List String :=
  (if m.counters.isEmpty then [] else ["counters"]) ++
  (if m.gauges.isEmpty then [] else ["gauges"]) ++
  (if m.histograms.isEmpty then [] else ["histograms"]) ++
  (if m.summaries.isEmpty then [] else ["summaries"]) ++ ["uptime_secs"]

theorem record_apart (m : MetricStore) (t : MetricType) (s : MetricSample) {key : String}
    (h : key ≠ s.seriesKey) : (m.record t s).counters.get? key = m.counters.get? key := by
  cases t <;> simp [record, addTo, SortedMap.get?_insert_of_ne, h]

end MetricStore
end LiveProbe
