import LiveProbe.Agent.Journal
import LiveProbe.Delivery.Pool
import LiveProbe.Expr.Cache
import LiveProbe.Id
import LiveProbe.Trigger.Callback
import LiveProbe.Trigger.Index

/-!
# Surroundings and state of an agent

What an agent is given for its whole life, and what events change.
-/

namespace LiveProbe

/-- Outcomes of evaluating an expression. -/
inductive Evaluation
  | value (r : Ref) (heap : Heap)
  | fault (error : EvalError)
  | panic

/-- How a collaborator answers a call, once it has kept what it was given. It may
deliver an event of its own or uninstall the hook before it returns. -/
inductive Reaction
  | done | failed | panicked | reenters | uninstalls
  deriving DecidableEq, Repr

/-- Where snapshots go: to a service that answers its calls one by one, or into the
queue of the pool. -/
inductive PushService
  | direct (reaction : Nat → Reaction)
  | queued

/-- What an agent is given. Calls of the logger and of the push service, readings of
the clock, identifiers and events of collaborators are numbered. -/
structure Collaborators where
  evaluate : String → Bindings → Heap → Evaluation
  push : PushService
  logger : Nat → Reaction
  plugins : Plugins
  resource : Resource
  inApp : InApp
  captureDefaults : CaptureConfig
  clock : Nat → Nat
  /-- What the limit of a context in milliseconds amounts to. -/
  budget : UInt64 → Nat → Budget
  snapshotId : Nat → Nat
  reentry : Nat → TraceEvent × HostFrame

/-- Evaluation by the language of expressions. -/
def evaluateExpression (source : String) (b : Bindings) (h : Heap) : Evaluation :=
  match (ExprCache.evaluate ∅ source b h).1 with
  | .ok (r, heap) => .value r heap
  | .error e => .fault e

/-- Whether the hook is installed on the current thread, and is to be installed on
new ones. -/
structure Installation where
  current : Bool
  fresh : Bool
  deriving DecidableEq, Repr

/-- What events change. -/
structure AgentState where
  heap : Heap
  ledger : FireLedger
  index : TriggerIndex
  enabled : Bool
  callbacks : CallbackRegistry
  contexts : IdGenerator
  /-- The number of readings of the clock. -/
  readings : Nat
  /-- The number of spans opened. -/
  spans : Nat
  /-- The number of snapshots begun. -/
  captures : Nat
  pool : TaskPool Snapshot
  installation : Installation
  journal : Journal

namespace AgentState

/-- Before any event. -/
def initial (heap : Heap) (pool : TaskPool Snapshot) : AgentState where
  heap := heap
  ledger := .empty
  index := .empty
  enabled := true
  callbacks := .empty
  contexts := ⟨1⟩
  readings := 0
  spans := 0
  captures := 0
  pool := pool
  installation := ⟨false, false⟩
  journal := .empty

/-- Adds a diagnostic. -/
def report (s : AgentState) (d : Diagnostic) : AgentState :=
  { s with journal := s.journal.report d }

/-- Reads the clock. -/
def readClock (c : Collaborators) (s : AgentState) : Nat × AgentState :=
  (c.clock s.readings, { s with readings := s.readings + 1 })

/-- Removes the hook from the current thread and from new ones. -/
def uninstall (s : AgentState) : AgentState := { s with installation := ⟨false, false⟩ }

/-- Opens a span at a processor. -/
def openSpan (s : AgentState) (processor : Nat) (request : SpanRequest) :
    SpanHandle × AgentState :=
  let handle : SpanHandle := ⟨s.spans, processor, request.name, request.tracepoint⟩
  (handle, { s with spans := s.spans + 1, journal := s.journal.span (.opened handle request) })

/-- Closes spans in their order. A panic, told by `false`, leaves the rest open. -/
def closeSpans (c : Collaborators) : List SpanHandle → AgentState → Bool × AgentState
  | [], s => (true, s)
  | handle :: rest, s =>
    let s := { s with journal := s.journal.span (.closed handle) }
    if c.plugins.closePanics handle then (false, s) else closeSpans c rest s

end AgentState
end LiveProbe
