import LiveProbe.Frame.Host
import LiveProbe.Plugin.Basic
import LiveProbe.Trigger.Action
import LiveProbe.Trigger.Location

/-!
# Deferred callbacks

Work that is left for a later event of one activation: spans to be closed and
actions to be run.

**Algorithm.** Pending callbacks are kept in the order of their registration, and
beside them their number, so that an idle registry is told without a look at the
list.

**Results.**
* `count_register`, `count_takeMatching`, `count_drain`: the number stays that of the
  pending callbacks.
* `matches_of_mem_takeMatching`: only matching callbacks are taken.
-/

namespace LiveProbe

/-- Occasions of a callback: the activation is left, or moves on from a line. -/
inductive CallbackKind
  | methodExit
  | lineExit (line : UInt32)
  deriving DecidableEq, Repr

/-- The activation and the occasion that a callback waits for. -/
structure CallbackLocation where
  file : String
  function : String
  activation : Nat
  kind : CallbackKind
  deriving DecidableEq, Repr

namespace CallbackLocation

/-- The location in the activation of a frame. -/
def ofFrame (f : HostFrame) (kind : CallbackKind) : CallbackLocation :=
  ⟨f.top.file, f.top.function, f.top.identity, kind⟩

/-- The frame is one of the same activation. -/
def isOf (l : CallbackLocation) (f : HostFrame) : Bool :=
  l.activation == f.top.identity && l.function == f.top.function && l.file == f.top.file

/-- The event in a frame is the one that is waited for. -/
def «matches» (l : CallbackLocation) (event : TraceEvent) (f : HostFrame) : Bool :=
  l.isOf f &&
    match l.kind with
    | .methodExit => event.isExit
    | .lineExit _ => event == .line || event.isExit

end CallbackLocation

/-- Deferred work. -/
inductive CallbackPayload
  | closeSpans (handles : List SpanHandle)
  | runActions (actions : List Action)
  deriving DecidableEq

/-- Work that waits for an event. -/
structure DeferredCallback where
  location : CallbackLocation
  payload : CallbackPayload
  deriving DecidableEq

/-- The pending callbacks. -/
structure CallbackRegistry where
  pending : List DeferredCallback
  count : Nat

namespace CallbackRegistry

/-- No callbacks. -/
def empty : CallbackRegistry := ⟨[], 0⟩

/-- No callback is pending. -/
def isEmpty (r : CallbackRegistry) : Bool := r.count == 0

/-- The registry of a list. -/
def ofPending (pending : List DeferredCallback) : CallbackRegistry := ⟨pending, pending.length⟩

/-- Adds a callback. -/
def register (r : CallbackRegistry) (c : DeferredCallback) : CallbackRegistry :=
  ofPending (r.pending ++ [c])

/-- Takes the callbacks that wait for an event. -/
def takeMatching (r : CallbackRegistry) (event : TraceEvent) (f : HostFrame) :
    List DeferredCallback × CallbackRegistry :=
  if r.isEmpty then ([], r)
  else
    let (taken, left) := r.pending.partition fun c => c.location.matches event f
    (taken, ofPending left)

/-- Takes all callbacks. -/
def drain (r : CallbackRegistry) : List DeferredCallback × CallbackRegistry := (r.pending, empty)

/-- The number is that of the pending callbacks. -/
def IsCounted (r : CallbackRegistry) : Prop := r.count = r.pending.length

theorem count_empty : empty.IsCounted := rfl

theorem count_register (r : CallbackRegistry) (c : DeferredCallback) :
    (r.register c).IsCounted := rfl

theorem count_takeMatching {r : CallbackRegistry} (h : r.IsCounted) (event : TraceEvent)
    (f : HostFrame) : (r.takeMatching event f).2.IsCounted := by
  unfold takeMatching
  split
  · exact h
  · rfl

theorem count_drain (r : CallbackRegistry) : r.drain.2.IsCounted := rfl

theorem matches_of_mem_takeMatching {r : CallbackRegistry} {event : TraceEvent} {f : HostFrame}
    {c : DeferredCallback} (h : c ∈ (r.takeMatching event f).1) :
    c.location.matches event f = true := by
  unfold takeMatching at h
  split at h
  · simp at h
  · simp only [List.partition_eq_filter_filter, List.mem_filter] at h
    exact h.2

end CallbackRegistry
end LiveProbe
