import LiveProbe.Agent.State

/-!
# Contexts

One matched event on its way through the actions that it triggers. All actions of
a context share one lookup table, one stack and one time budget.

**Results.**
* `begin_id`, `begin_results`: a context takes the next number and begins without
  results.
-/

namespace LiveProbe

/-- Stages in the life of a context. -/
inductive ContextState
  | opened | evaluating | processing | closing | closed
  deriving DecidableEq, Repr

/-- What a fired action leaves to be delivered. -/
inductive ActionResult
  | log (tracepoint message : String)
  | snapshot (snapshot : Snapshot)
  | metric (tracepoint : String)
  /-- Open spans, with the occasion on which they are closed if it is not now. -/
  | span (tracepoint : String) (handles : List SpanHandle) (closeOn : Option CallbackLocation)

namespace ActionResult

/-- The kind of action that left the result. -/
def actionType : ActionResult → ActionType
  | log .. => .log
  | snapshot _ => .snapshot
  | metric _ => .metric
  | span .. => .span

/-- The id of the tracepoint. -/
def tracepoint : ActionResult → String
  | log tracepoint _ => tracepoint
  | snapshot s => s.tracepoint.id
  | metric tracepoint => tracepoint
  | span tracepoint .. => tracepoint

end ActionResult

/-- A context. -/
structure TriggerContext where
  id : UInt64
  ts : Nat
  event : TraceEvent
  frame : HostFrame
  bindings : Bindings
  config : CaptureConfig
  capture : CaptureState
  /-- The stack, once it was collected. -/
  frames : Option (List StackFrame)
  /-- What fired actions left, in their order. -/
  results : List ActionResult
  /-- Expressions of messages and metrics, for the snapshots of their tracepoints. -/
  attached : List (String × WatchResult)
  state : ContextState

/-- A context within the state of the agent. -/
structure Firing where
  context : TriggerContext
  agent : AgentState

namespace Firing

/-- Begins a context for actions that an event in a frame triggers; `none` where
asking for the locals panics. -/
def begin? (c : Collaborators) (event : TraceEvent) (frame : HostFrame) (actions : List Action)
    (s : AgentState) : Option Firing :=
  frame.bindings?.map fun bindings =>
    let config := CaptureConfig.merged c.captureDefaults (actions.map Action.tracepoint)
    let (id, contexts) := s.contexts.next
    let (ts, s) := { s with contexts := contexts }.readClock c
    let context : TriggerContext :=
      { id := id
        ts := ts
        event := event
        frame := frame
        bindings := bindings
        config := config
        capture := ⟨.empty, c.budget id config.maxProcessTimeMs⟩
        frames := none
        results := []
        attached := []
        state := .opened }
    ⟨context, s⟩

theorem begin_id {c : Collaborators} {event : TraceEvent} {frame : HostFrame}
    {actions : List Action} {s : AgentState} {f : Firing}
    (h : begin? c event frame actions s = some f) : f.context.id = s.contexts.current := by
  simp only [begin?, Option.map_eq_some_iff] at h
  obtain ⟨_, _, rfl⟩ := h
  rfl

theorem begin_results {c : Collaborators} {event : TraceEvent} {frame : HostFrame}
    {actions : List Action} {s : AgentState} {f : Firing}
    (h : begin? c event frame actions s = some f) : f.context.results = [] := by
  simp only [begin?, Option.map_eq_some_iff] at h
  obtain ⟨_, _, rfl⟩ := h
  rfl

/-- Enters a stage. -/
def enter (f : Firing) (state : ContextState) : Firing :=
  { f with context := { f.context with state := state } }

/-- Adds a result. -/
def leave (f : Firing) (r : ActionResult) : Firing :=
  { f with context := { f.context with results := f.context.results ++ [r] } }

/-- Attaches an expression to the snapshots of a tracepoint. -/
def attach (f : Firing) (tracepoint : String) (w : WatchResult) : Firing :=
  { f with context := { f.context with attached := f.context.attached ++ [(tracepoint, w)] } }

/-- Adds a diagnostic. -/
def report (f : Firing) (d : Diagnostic) : Firing := { f with agent := f.agent.report d }

end Firing
end LiveProbe
