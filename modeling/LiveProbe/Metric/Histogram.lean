/-!
# Histograms

Observations counted under upper bounds. A count takes in everything at or below
its bound, and percentiles are read off as bounds.

**Results.**
* `counts_length_observe`: an observation keeps one count per bound.
-/

namespace LiveProbe

/-- Observations under bounds. -/
structure Histogram where
  /-- The bounds, ascending, each with the number of observations not above it. -/
  buckets : List (Float × Nat)
  sum : Float
  count : Nat

/-- What is reported of a histogram. -/
structure HistogramStats where
  count : Nat
  sum : Float
  avg : Float
  p50 : Float
  p95 : Float
  p99 : Float

namespace Histogram

/-- The bounds of every histogram. -/
def bounds : List Float := [0.001, 0.005, 0.01, 0.05, 0.1, 0.5, 1.0, 5.0, 10.0, 100.0, 1000.0]

/-- No observations. -/
def empty : Histogram := ⟨bounds.map fun b => (b, 0), 0.0, 0⟩

/-- Adds an observation. -/
def observe (h : Histogram) (value : Float) : Histogram where
  buckets := h.buckets.map fun b => if value ≤ b.1 then (b.1, b.2 + 1) else b
  sum := h.sum + value
  count := h.count + 1

/-- The number of observations as a floating-point number. -/
def size (h : Histogram) : Float := Float.ofNat h.count

/-- The least bound with at least the share `p` of all observations below it, the
largest bound where there is none, and zero without observations. -/
def percentile (h : Histogram) (p : Float) : Float :=
  if h.count = 0 then 0.0
  else
    let target := (h.size * p).ceil.toUInt64.toNat
    match h.buckets.find? fun b => target ≤ b.2 with
    | some b => b.1
    | none => ((h.buckets.map Prod.fst).getLast?).getD 0.0

/-- The mean; zero without observations. -/
def average (h : Histogram) : Float := if h.count = 0 then 0.0 else h.sum / h.size

/-- The report of a histogram. -/
def stats (h : Histogram) : HistogramStats where
  count := h.count
  sum := h.sum
  avg := h.average
  p50 := h.percentile 0.50
  p95 := h.percentile 0.95
  p99 := h.percentile 0.99

@[simp] theorem counts_length_observe (h : Histogram) (value : Float) :
    (h.observe value).buckets.length = h.buckets.length := by
  simp [observe]

end Histogram
end LiveProbe
