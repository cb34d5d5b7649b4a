import LiveProbe.Context.Closing

/-!
# Trace hook

The entry point for the events of the observed program.

**Algorithm.** Where the hook is disabled, or nothing can match the event, it is
answered at once. Else callbacks that wait for the event run first. Actions at the
end of a line then wait for the next event of the activation, and all other actions
of the triggers that are hit run now. An event from within the hook is not
dispatched, and a panic ends the dispatch of its event only.

**Results.**
* `traceCall_of_disabled`: a disabled hook detaches and does nothing.
* `deliverInside_snd`: an event from within the hook changes nothing.
-/

namespace LiveProbe
namespace AgentState

/-- The answer to an event that needs no dispatch. -/
def shortcut? (s : AgentState) (event : TraceEvent) (frame : HostFrame) : Option Continuation :=
  if !s.enabled then some .detach
  else if s.index.isEmpty && s.callbacks.isEmpty then some .detach
  else if event == .call && s.callbacks.isEmpty && !s.index.hasFile frame.top.file then
    some .detach
  else none

/-- An event from within the hook. -/
def deliverInside (event : TraceEvent) (frame : HostFrame) (s : AgentState) :
    Continuation × AgentState :=
  ((s.shortcut? event frame).getD .proceed, s)

/-- Runs actions in a context of their own. A panic before the context begins is told
by `false`. -/
def runActions (c : Collaborators) (event : TraceEvent) (frame : HostFrame)
    (actions : List Action) (s : AgentState) : Bool × AgentState :=
  match Firing.begin? c event frame actions s with
  | none => (false, s)
  | some f => (true, ((f.process c actions).2.close c deliverInside).agent)

/-- Runs the work of a callback; `false` after a panic. -/
def runCallback (c : Collaborators) (event : TraceEvent) (frame : HostFrame)
    (payload : CallbackPayload) (s : AgentState) : Bool × AgentState :=
  match payload with
  | .closeSpans handles => closeSpans c handles s
  | .runActions actions => s.runActions c event frame actions

/-- Runs callbacks in their order up to a panic, told by `false`. -/
def runCallbacks (c : Collaborators) (event : TraceEvent) (frame : HostFrame) :
    List DeferredCallback → AgentState → Bool × AgentState
  | [], s => (true, s)
  | callback :: rest, s =>
    match s.runCallback c event frame callback.payload with
    | (true, s) => runCallbacks c event frame rest s
    | (false, s) => (false, s)

/-- The actions of a trigger wait for the end of the line. -/
def isLineEnd (t : Trigger) : Bool :=
  match t.location.target with
  | .line _ => t.location.position == .finish
  | .method _ => false

/-- Leaves actions to be run at the next event of the activation. -/
def deferActions (frame : HostFrame) (actions : List Action) (s : AgentState) : AgentState :=
  if actions.isEmpty then s
  else
    { s with
      callbacks := s.callbacks.register
        ⟨.ofFrame frame (.lineExit frame.top.line), .runActions actions⟩ }

/-- Runs or defers the actions of the triggers that an event hits. -/
def runMatching (c : Collaborators) (event : TraceEvent) (frame : HostFrame) (s : AgentState) :
    Bool × AgentState :=
  let hit := s.index.matching event frame.top.file frame.top.line frame.top.function
  let (waiting, immediate) := hit.partition isLineEnd
  let s := s.deferActions frame (waiting.flatMap Trigger.actions)
  let actions := immediate.flatMap Trigger.actions
  if actions.isEmpty then (true, s) else s.runActions c event frame actions

/-- Dispatches an event; `false` after a panic. -/
def dispatch (c : Collaborators) (event : TraceEvent) (frame : HostFrame) (s : AgentState) :
    Bool × AgentState :=
  let (taken, callbacks) := s.callbacks.takeMatching event frame
  match { s with callbacks := callbacks }.runCallbacks c event frame taken with
  | (false, s) => (false, s)
  | (true, s) =>
    if s.index.hasFile frame.top.file then s.runMatching c event frame else (true, s)

/-- Handles an event from outside the hook. -/
def traceCall (c : Collaborators) (event : TraceEvent) (frame : HostFrame) (s : AgentState) :
    Continuation × AgentState :=
  match s.shortcut? event frame with
  | some k => (k, s)
  | none =>
    match s.dispatch c event frame with
    | (true, s) => (.proceed, s)
    | (false, s) => (.proceed, s.report .hookPanicked)

theorem traceCall_of_disabled {s : AgentState} (h : s.enabled = false) (c : Collaborators)
    (event : TraceEvent) (frame : HostFrame) :
    s.traceCall c event frame = (.detach, s) := by
  simp [traceCall, shortcut?, h]

theorem deliverInside_snd (event : TraceEvent) (frame : HostFrame) (s : AgentState) :
    (s.deliverInside event frame).2 = s := rfl

/-- Rebuilds the index for a new set of tracepoints. -/
def newConfig (tps : List Tracepoint) (s : AgentState) : AgentState :=
  let (index, ledger) := s.index.rebuild s.ledger tps
  let s := { s with index := index, ledger := ledger }
  (TriggerIndex.invalid tps).foldl (fun s _ => s.report .invalidTracepoint) s

/-! ### Threads -/

/-- Delivers an event to the hook of the current thread. -/
def dispatchEvent (c : Collaborators) (event : TraceEvent) (frame : HostFrame) (s : AgentState) :
    Continuation × AgentState :=
  if s.installation.current then s.traceCall c event frame else (.detach, s)

/-- Delivers events to the hook of the current thread, in their order. -/
def dispatchAll (c : Collaborators) :
    List (TraceEvent × HostFrame) → AgentState → List Continuation × AgentState
  | [], s => ([], s)
  | (event, frame) :: rest, s =>
    let (k, s) := s.dispatchEvent c event frame
    let (ks, s) := dispatchAll c rest s
    (k :: ks, s)

/-- Delivers events on a new thread. The hook is installed on it if it is to be
installed on new threads; told first is whether it still is after the events. -/
def onNewThread (c : Collaborators) (events : List (TraceEvent × HostFrame)) (s : AgentState) :
    Bool × List Continuation × AgentState :=
  let ⟨current, fresh⟩ := s.installation
  let (ks, s) := { s with installation := ⟨fresh, fresh⟩ }.dispatchAll c events
  (s.installation.current, ks, { s with installation := { s.installation with current := current } })

end AgentState
end LiveProbe
