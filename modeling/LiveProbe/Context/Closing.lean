import LiveProbe.Context.Actions

/-!
# Delivery of results

The end of a context: snapshots are completed, and every result is handed to its
collaborator.

**Algorithm.** A snapshot takes up the first message of its tracepoint and the
expressions attached to it, and all snapshots take the lookup table of the context.
Then results are delivered in their order; one that fails or panics does not keep
the others back.

**Results.**
* `close_of_closed`: closing a closed context changes nothing.
* `state_close`: a context is closed after it.
-/

namespace LiveProbe

/-- How a delivery ends. -/
inductive DeliveryOutcome
  | delivered | failed | panicked
  deriving DecidableEq, Repr

/-- What a collaborator's event within a call does to the agent. -/
abbrev Reentry := TraceEvent → HostFrame → AgentState → Continuation × AgentState

namespace AgentState

/-- The answer of a collaborator, with what it does meanwhile. -/
def react (c : Collaborators) (reentry : Reentry) (reaction : Reaction) (s : AgentState) :
    DeliveryOutcome × AgentState :=
  match reaction with
  | .done => (.delivered, s)
  | .failed => (.failed, s)
  | .panicked => (.panicked, s)
  | .uninstalls => (.delivered, s.uninstall)
  | .reenters =>
    let (event, frame) := c.reentry s.journal.reentries.size
    let (k, s) := reentry event frame s
    (.delivered, { s with journal := s.journal.reenter k })

/-- Hands a snapshot to the push service. -/
def pushSnapshot (c : Collaborators) (reentry : Reentry) (snapshot : Snapshot) (s : AgentState) :
    DeliveryOutcome × AgentState :=
  match c.push with
  | .direct reaction =>
    let call := s.journal.snapshots.size
    { s with journal := s.journal.keep snapshot }.react c reentry (reaction call)
  | .queued =>
    match s.pool.enqueue snapshot with
    | (.ok _, pool) => (.delivered, { s with pool := pool })
    | (.error _, pool) => (.failed, { s with pool := pool })

/-- Hands a message to the logger. -/
def logTracepoint (c : Collaborators) (reentry : Reentry) (r : LogRecord) (s : AgentState) :
    DeliveryOutcome × AgentState :=
  let call := s.journal.logs.size
  { s with journal := s.journal.log r }.react c reentry (c.logger call)

/-- Leaves spans to be closed at a later event. -/
def deferClose (location : CallbackLocation) (handles : List SpanHandle) (s : AgentState) :
    AgentState :=
  { s with callbacks := s.callbacks.register ⟨location, .closeSpans handles⟩ }

/-- Delivers a result of a context. -/
def deliver (c : Collaborators) (reentry : Reentry) (context : UInt64) (r : ActionResult)
    (s : AgentState) : DeliveryOutcome × AgentState :=
  match r with
  | .log tracepoint message => s.logTracepoint c reentry ⟨message, tracepoint, context⟩
  | .snapshot snapshot => s.pushSnapshot c reentry snapshot
  | .metric _ => (.delivered, s)
  | .span _ handles (some location) => (.delivered, s.deferClose location handles)
  | .span _ handles none =>
    match closeSpans c handles s with
    | (true, s) => (.delivered, s)
    | (false, s) => (.panicked, s)

/-- What is reported of a delivery. -/
def reportDelivery (outcome : DeliveryOutcome) (s : AgentState) : AgentState :=
  match outcome with
  | .delivered => s
  | .failed => s.report .deliveryFailed
  | .panicked => s.report .deliveryPanicked

/-- Delivers results in their order. -/
def deliverAll (c : Collaborators) (reentry : Reentry) (context : UInt64) :
    List ActionResult → AgentState → AgentState
  | [], s => s
  | r :: rest, s =>
    let (outcome, s) := s.deliver c reentry context r
    deliverAll c reentry context rest (s.reportDelivery outcome)

end AgentState

namespace ActionResult

/-- The message of a result and its tracepoint. -/
def message? : ActionResult → Option (String × String)
  | log tracepoint message => some (tracepoint, message)
  | _ => none

end ActionResult

namespace Snapshot

/-- The snapshot with the message of its tracepoint. -/
def withMessage (s : Snapshot) : Option String → Snapshot
  | none => s
  | some message =>
    ({ s with logMsg := some message }.setText "log_msg" message).setAttribute "has_log" (.bool true)

/-- The snapshot with all that its context adds at the end. -/
def finished (messages : List (String × String)) (attached : List (String × WatchResult))
    (lookup : SortedMap Variable) (now : Nat) (s : Snapshot) : Snapshot :=
  let s := s.withMessage (messages.lookup s.tracepoint.id)
  let own := (attached.filter fun a => a.1 == s.tracepoint.id).map Prod.snd
  { s with watches := s.watches ++ own, lookup := lookup }.complete now

end Snapshot

namespace Firing

/-- The results as they are delivered, with completed snapshots. -/
def finishedResults (x : TriggerContext) (now : Nat) : List ActionResult :=
  let lookup := SortedMap.ofList x.capture.table.lookup
  let messages := x.results.filterMap ActionResult.message?
  x.results.map fun r =>
    match r with
    | .snapshot s => .snapshot (s.finished messages x.attached lookup now)
    | r => r

/-- Takes the results out of the context and delivers them, if there are any. -/
def deliverResults (c : Collaborators) (reentry : Reentry) (f : Firing) : Firing :=
  if f.context.results.isEmpty then f
  else
    let (now, s) := f.agent.readClock c
    let results := finishedResults f.context now
    let x :=
      { f.context with
        results := []
        attached := []
        capture := { f.context.capture with table := .empty } }
    ⟨x, s.deliverAll c reentry x.id results⟩

/-- Closes the context, once. -/
def close (c : Collaborators) (reentry : Reentry) (f : Firing) : Firing :=
  if f.context.state = .closed then f
  else ((f.enter .closing).deliverResults c reentry).enter .closed

theorem close_of_closed {f : Firing} (h : f.context.state = .closed) (c : Collaborators)
    (reentry : Reentry) : f.close c reentry = f := by
  simp [close, h]

theorem state_close (c : Collaborators) (reentry : Reentry) (f : Firing) :
    (f.close c reentry).context.state = .closed := by
  unfold close
  split
  · next h => exact h
  · rfl

end Firing
end LiveProbe
