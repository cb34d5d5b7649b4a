import LiveProbe.Agent.Hook

/-!
# Agents

An agent from its construction to its shutdown: the set of tracepoints in force,
the hook, and the pool that delivers.

**Results.**
* `update_of_same`: an update under the active hash changes nothing.
* `enabled_shutdown`: after a shutdown the hook is disabled.
-/

namespace LiveProbe

/-- Those who are told of a new set of tracepoints: the agent's own hook and any
other listener. -/
inductive Listener
  | hook
  | named (name : String) (panics : ConfigChange → Bool)

/-- An agent. -/
structure Agent where
  config : AgentConfig
  collaborators : Collaborators
  service : ConfigService Listener
  /-- The hook was installed and the agent has not been shut down since. -/
  started : Bool
  state : AgentState

/-- How a shutdown ends when it does not end well. -/
inductive ShutdownFault
  | panicked
  | undelivered (error : TaskError)
  deriving DecidableEq, Repr

/-- Tells a listener of a change; `false` if it panics. -/
def Listener.tell (l : Listener) (change : ConfigChange) (s : AgentState) : Bool × AgentState :=
  match l with
  | .hook => (true, s.newConfig change.new.tracepoints)
  | .named name panics =>
    (!panics change, { s with journal := s.journal.notify name change })

namespace AgentState

/-- Tells all listeners of a change. The panic of one does not keep the others from
being told. -/
def tellAll (change : ConfigChange) : List Listener → AgentState → AgentState
  | [], s => s
  | l :: rest, s =>
    match l.tell change s with
    | (true, s) => tellAll change rest s
    | (false, s) => tellAll change rest (s.report .listenerPanicked)

end AgentState

namespace ConfigService

/-- Replaces the set under a new hash and tells the listeners. Returned is whether
the hash was new. -/
def apply (service : ConfigService Listener) (c : Collaborators) (hash : String)
    (tps : List Tracepoint) (s : AgentState) : Bool × ConfigService Listener × AgentState :=
  if service.isChanged hash then
    let (ts, s) := s.readClock c
    match service.update ts hash tps with
    | (service, some change) => (true, service, s.tellAll change service.listeners)
    | (service, none) => (false, service, s)
  else (false, service, s)

end ConfigService

namespace Agent

/-- The attributes of a service with those of its settings. -/
def resourceOf (config : AgentConfig) (process : String) : Resource :=
  config.resource.entries.foldl (fun r e => r.set e.1 e.2) (.ofService config.serviceName process)

/-- The collaborators with all that the settings decide. -/
def configured (config : AgentConfig) (process : String) (metrics : List MetricProcessor)
    (spans : List SpanProcessor) (c : Collaborators) : Collaborators :=
  { c with
    resource := resourceOf config process
    inApp := .ofConfig config
    captureDefaults := { CaptureConfig.standard with maxProcessTimeMs := config.maxProcessTimeMs }
    plugins := .load metrics spans }

/-- An agent that is built but not started. Its hook is the first listener. -/
def build (config : AgentConfig) (process : String) (metrics : List MetricProcessor)
    (spans : List SpanProcessor) (c : Collaborators) (heap : Heap) : Agent where
  config := config
  collaborators := configured config process metrics spans c
  service := ConfigService.empty.addListener .hook
  started := false
  state :=
    (List.replicate (Plugins.failures metrics spans) Diagnostic.pluginExcluded).foldl
      AgentState.report (.initial heap (.ofSize config.workerThreads config.queueCapacity))

/-- Registers a listener. -/
def listen (a : Agent) (l : Listener) : Agent := { a with service := a.service.addListener l }

/-- Enables the hook and installs it on this thread and on new ones. -/
def start (a : Agent) : Agent :=
  { a with started := true, state := { a.state with enabled := true, installation := ⟨true, true⟩ } }

/-- Enables or disables the hook. -/
def setEnabled (a : Agent) (enabled : Bool) : Agent :=
  { a with state := { a.state with enabled := enabled } }

/-- Puts a set of tracepoints in force; `false` if its hash is the active one. -/
def update (a : Agent) (hash : String) (tps : List Tracepoint) : Bool × Agent :=
  let (changed, service, state) := a.service.apply a.collaborators hash tps a.state
  (changed, { a with service := service, state := state })

/-- Puts a set of tracepoints in force under its fingerprint. -/
def updateComputed (a : Agent) (tps : List Tracepoint) : Bool × Agent :=
  a.update (Tracepoint.fingerprint tps) tps

/-- Applies an operation on the state. -/
def run {α : Type} (a : Agent) (f : Collaborators → AgentState → α × AgentState) : α × Agent :=
  let (x, state) := f a.collaborators a.state
  (x, { a with state := state })

/-- Closes the spans of drained callbacks; actions that were to be run are dropped.
A panic is told by `false`. -/
def closeDrained (c : Collaborators) : List DeferredCallback → AgentState → Bool × AgentState
  | [], s => (true, s)
  | callback :: rest, s =>
    match callback.payload with
    | .runActions _ => closeDrained c rest s
    | .closeSpans handles =>
      match s.closeSpans c handles with
      | (true, s) => closeDrained c rest s
      | (false, s) => (false, s)

/-- Disables the hook and, if the agent was started, uninstalls it. -/
def stop (a : Agent) : Agent :=
  let s := { a.state with enabled := false }
  { a with started := false, state := if a.started then s.uninstall else s }

/-- The agent after its workers, which are never stuck, have caught up. -/
def work (a : Agent) : Agent :=
  { a with state := { a.state with pool := a.state.pool.settle fun _ => false } }

/-- Delivers what is queued, with workers that are never stuck. -/
def drainPool (s : AgentState) : Except ShutdownFault Unit × AgentState :=
  match s.pool.shutdown fun _ => false with
  | (.ok _, pool) => (.ok (), { s with pool := pool })
  | (.error e, pool) => (.error (.undelivered e), { s with pool := pool }.report .drainTimedOut)

/-- Shuts down: no further events, all pending spans closed, the queue delivered. -/
def shutdown (a : Agent) : Except ShutdownFault Unit × Agent :=
  let a := a.stop
  let (pending, callbacks) := a.state.callbacks.drain
  match closeDrained a.collaborators pending { a.state with callbacks := callbacks } with
  | (false, s) => (.error .panicked, { a with state := s })
  | (true, s) =>
    let (result, s) := drainPool s
    (result, { a with state := s })

theorem update_of_same (a : Agent) (tps : List Tracepoint) :
    a.update a.service.state.hash tps = (false, a) := by
  simp [update, ConfigService.apply, ConfigService.isChanged]

theorem enabled_closeSpans (c : Collaborators) (handles : List SpanHandle) (s : AgentState) :
    (s.closeSpans c handles).2.enabled = s.enabled := by
  induction handles generalizing s with
  | nil => rfl
  | cons handle rest ih =>
    unfold AgentState.closeSpans
    dsimp only
    split
    · rfl
    · rw [ih]

theorem enabled_closeDrained (c : Collaborators) (pending : List DeferredCallback)
    (s : AgentState) : (closeDrained c pending s).2.enabled = s.enabled := by
  induction pending generalizing s with
  | nil => rfl
  | cons callback rest ih =>
    unfold closeDrained
    split
    · exact ih s
    · next handles _ =>
      have h := enabled_closeSpans c handles s
      split
      · next s' hs => rw [ih, ← h, hs]
      · next s' hs => rw [← h, hs]

theorem enabled_drainPool (s : AgentState) : (drainPool s).2.enabled = s.enabled := by
  unfold drainPool
  split <;> rfl

theorem enabled_stop (a : Agent) : a.stop.state.enabled = false := by
  unfold stop
  dsimp only
  split <;> rfl

theorem enabled_shutdown (a : Agent) : a.shutdown.2.state.enabled = false := by
  have h : ∀ pending callbacks, (closeDrained a.stop.collaborators pending
      { a.stop.state with callbacks := callbacks }).2.enabled = false := fun pending callbacks => by
    rw [enabled_closeDrained]
    exact enabled_stop a
  unfold shutdown
  dsimp only
  have h := h a.stop.state.callbacks.drain.1 a.stop.state.callbacks.drain.2
  split
  · next s hs => rw [hs] at h; exact h
  · next s hs =>
    rw [hs] at h
    rw [enabled_drainPool]
    exact h

end Agent
end LiveProbe
