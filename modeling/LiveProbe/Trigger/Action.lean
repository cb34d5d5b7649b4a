import LiveProbe.Config.Tracepoint

/-!
# Actions

What a tracepoint does when it fires, the limits on firing, and the statistics
behind them.

**Results.**
* `record_of_refused`: a refused attempt does not run and leaves the statistics as
  they are.
-/

namespace LiveProbe

/-- What an action does. -/
inductive ActionConfig
  | snapshot
  | log (template : String)
  | metric (definition : MetricDefinition)
  | span (spanType : SpanType) (name : Option String)
  deriving DecidableEq, Repr

/-- Kinds of actions. -/
inductive ActionType
  | snapshot | log | metric | span
  deriving DecidableEq, Repr

/-- The kind of an action. -/
def ActionConfig.actionType : ActionConfig → ActionType
  | .snapshot => .snapshot
  | .log _ => .log
  | .metric _ => .metric
  | .span .. => .span

/-- The name of a kind. -/
def ActionType.name : ActionType → String
  | .snapshot => "snapshot"
  | .log => "log"
  | .metric => "metric"
  | .span => "span"

/-- The largest time, in nanoseconds. -/
def maxTime : Nat := 0xFFFFFFFFFFFFFFFF

/-- Milliseconds as nanoseconds; negative ones are none, and the largest time is
never exceeded. -/
def millisToNanos (millis : Int) : Nat := min (millis.toNat * Limits.nanosPerMilli) maxTime

/-- Limits on the firing of one action. -/
structure FireLimits where
  /-- Minus one sets no limit. -/
  fireCount : Int
  firePeriodNs : Nat
  /-- Inclusive bounds; zero leaves a side open. -/
  windowStartNs : Nat
  windowEndNs : Nat
  deriving DecidableEq, Repr

/-- How often and when an action fired. -/
structure FireStats where
  count : Nat
  lastFireNs : Option Nat
  deriving DecidableEq, Repr

/-- Why an action may not fire. -/
inductive ThrottleReason
  | fireCountExceeded | beforeWindow | afterWindow | tooSoon
  deriving DecidableEq, Repr

namespace FireLimits

/-- The limits that a tracepoint asks for. -/
def ofTracepoint (tp : Tracepoint) : FireLimits where
  fireCount := tp.fireCount
  firePeriodNs := millisToNanos tp.firePeriodMs
  windowStartNs := millisToNanos tp.windowStartMs
  windowEndNs := millisToNanos tp.windowEndMs

/-- No limits. -/
def unlimited : FireLimits := ⟨Limits.unlimitedFireCount, 0, 0, 0⟩

/-- The last firing is not longer ago than the period. -/
def isTooSoon (l : FireLimits) (last : Option Nat) (ts : Nat) : Bool :=
  match last with
  | some last => 0 < l.firePeriodNs && ts - last ≤ l.firePeriodNs
  | none => false

/-- The first limit that stands against a firing at a time: the count, the window,
then the period. -/
def refusal? (l : FireLimits) (s : FireStats) (ts : Nat) : Option ThrottleReason :=
  if l.fireCount ≠ Limits.unlimitedFireCount ∧ l.fireCount ≤ s.count then some .fireCountExceeded
  else if l.windowStartNs ≠ 0 ∧ ts < l.windowStartNs then some .beforeWindow
  else if l.windowEndNs ≠ 0 ∧ l.windowEndNs < ts then some .afterWindow
  else if l.isTooSoon s.lastFireNs ts then some .tooSoon
  else none

end FireLimits

namespace FireStats

/-- Nothing fired yet. -/
def zero : FireStats := ⟨0, none⟩

/-- The statistics after a firing at a time. -/
def record (s : FireStats) (ts : Nat) : FireStats := ⟨s.count + 1, some ts⟩

end FireStats

/-- An attempt to fire: refused, or run with the given outcome. Only a success is
recorded. -/
def FireLimits.attempt (l : FireLimits) (s : FireStats) (ts : Nat) (success : Bool) :
    Except ThrottleReason Bool × FireStats :=
  match l.refusal? s ts with
  | some reason => (.error reason, s)
  | none => (.ok success, if success then s.record ts else s)

theorem FireLimits.record_of_refused {l : FireLimits} {s : FireStats} {ts : Nat}
    {reason : ThrottleReason} (h : l.refusal? s ts = some reason) (success : Bool) :
    l.attempt s ts success = (.error reason, s) := by
  simp [attempt, h]

/-- An action of a tracepoint. Its statistics are kept under its key, apart from
the action itself. -/
structure Action where
  id : String
  tracepoint : Tracepoint
  condition : Option String
  config : ActionConfig
  limits : FireLimits
  key : Nat
  deriving DecidableEq

/-- An action with the condition and the limits of its tracepoint. -/
def Action.ofTracepoint (id : String) (tp : Tracepoint) (config : ActionConfig) (key : Nat) :
    Action :=
  ⟨id, tp, tp.condition?, config, .ofTracepoint tp, key⟩

/-- Statistics by the keys of actions. -/
structure FireLedger where
  stats : Array FireStats

namespace FireLedger

/-- No keys. -/
def empty : FireLedger := ⟨#[]⟩

/-- The first key that is not in use. -/
def next (l : FireLedger) : Nat := l.stats.size

/-- The statistics of a key. -/
def read (l : FireLedger) (key : Nat) : FireStats := l.stats.getD key .zero

/-- Replaces the statistics of a key. -/
def write (l : FireLedger) (key : Nat) (s : FireStats) : FireLedger :=
  ⟨l.stats.setIfInBounds key s⟩

/-- Records a firing. -/
def record (l : FireLedger) (key ts : Nat) : FireLedger := l.write key ((l.read key).record ts)

/-- Adds fresh keys. -/
def extend (l : FireLedger) (count : Nat) : FireLedger :=
  ⟨l.stats ++ Array.replicate count .zero⟩

theorem read_write_of_ne (l : FireLedger) {key other : Nat} (s : FireStats) (h : key ≠ other) :
    (l.write key s).read other = l.read other := by
  simp [write, read, h]

theorem read_write_self (l : FireLedger) {key : Nat} (s : FireStats) (h : key < l.next) :
    (l.write key s).read key = s := by
  simp only [next] at h
  simp [write, read, h]

theorem read_extend (l : FireLedger) (count key : Nat) :
    (l.extend count).read key = l.read key := by
  simp only [extend, read, Array.getD_eq_getD_getElem?, Array.getElem?_append]
  split
  · rfl
  · next h =>
    rw [Array.getElem?_eq_none (by omega : l.stats.size ≤ key)]
    cases hq : (Array.replicate count FireStats.zero)[key - l.stats.size]? with
    | none => rfl
    | some s =>
      have := Array.getElem?_eq_some_iff.1 hq
      obtain ⟨_, hs⟩ := this
      simp only [Array.getElem_replicate] at hs
      simp [← hs]

end FireLedger
end LiveProbe
