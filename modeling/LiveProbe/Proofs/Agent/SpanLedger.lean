import Mathlib.Data.List.Induction
import LiveProbe.Agent.Lifecycle
import LiveProbe.Proofs.Agent.FireCount
import LiveProbe.Proofs.Agent.Spans

/-!
# Spans in the course of a run

Whether spans are closed, from the start of an agent to its shutdown.

**Run.**  Events and updates come in any order; what is recorded and what is lost is
listed along them (`SpanRun.flow`).  At last the agent shuts down and closes what is held
still.

**Balance.**  The spans that were recorded are, each once, those that were closed, those
that are held and those that were lost (`SpanRun.Balanced`).

**Results.**
* `balanced_ofSteps`, `Balanced.perm_shutdown`: the balance of a run, and what a shutdown
  leaves of it.
* `closed_once_iff`: at any time every recorded span is closed or held, and after a
  shutdown each is closed exactly once, if and only if none was lost; and none is where
  neither the closing of a span nor the asking for locals panics.
* `panics_lose_spans`: either kind of panic loses a span that nobody closes.
-/

namespace LiveProbe

/-- The frames in which events happen. -/
def HookStep.frames (steps : List HookStep) : List HostFrame :=
  steps.filterMap fun
    | .event _ _ frame => some frame
    | .update _ => none

namespace AgentState

/-! ### Updates -/

/-- Reports change nothing but the diagnostics. -/
theorem foldl_report
    {α : Type}
    (f : α → Diagnostic) (l : List α) (s : AgentState) :
    ∃ diagnostics, l.foldl (fun s x => s.report (f x)) s =
      { s with journal := { s.journal with diagnostics := diagnostics } } := by
  induction l generalizing s with
  | nil =>
      exact ⟨s.journal.diagnostics, rfl⟩
  | cons x rest ih =>
      exact ih (s.report (f x))

/-- A new configuration opens and closes nothing. -/
theorem settles_newConfig
    (tps : List Tracepoint) (s : AgentState) :
    s.Settles [] .none (s.newConfig tps) := by
  unfold newConfig
  dsimp only
  obtain ⟨diagnostics, hreported⟩ := foldl_report (fun _ => .invalidTracepoint)
    (TriggerIndex.invalid tps)
    { s with
      index := (s.index.rebuild s.ledger tps).1
      ledger := (s.index.rebuild s.ledger tps).2 }
  rw [hreported]
  exact settles_of_eq rfl rfl rfl

/-! ### Shutdown -/

/-- A panic within the first handles keeps the others from being closed. -/
theorem closeSpans_append
    (c : Collaborators) (handles more : List SpanHandle) (s : AgentState) :
    s.closeSpans c (handles ++ more) =
      match s.closeSpans c handles with
      | (true, t) => t.closeSpans c more
      | (false, t) => (false, t) := by
  induction handles generalizing s with
  | nil =>
      rfl
  | cons handle rest ih =>
      rw [List.cons_append, closeSpans, closeSpans]
      split
      · rfl
      · exact ih _

theorem callbacks_closeSpans
    (c : Collaborators) (handles : List SpanHandle) (s : AgentState) :
    (s.closeSpans c handles).2.callbacks = s.callbacks := by
  induction handles generalizing s with
  | nil =>
      rfl
  | cons handle rest ih =>
      unfold closeSpans
      dsimp only
      split
      · rfl
      · exact ih _

end AgentState

namespace Agent

/-- At a shutdown all handles of pending callbacks are closed in one go. -/
theorem closeDrained_eq
    (c : Collaborators) (pending : List DeferredCallback) (s : AgentState) :
    closeDrained c pending s = s.closeSpans c (pending.flatMap DeferredCallback.handles) := by
  induction pending generalizing s with
  | nil =>
      rfl
  | cons callback rest ih =>
      rw [List.flatMap_cons, AgentState.closeSpans_append]
      unfold closeDrained DeferredCallback.handles
      rcases callback.payload with handles | actions
      · dsimp only
        rcases s.closeSpans c handles with ⟨_ | _, t⟩
        · rfl
        · exact ih t
      · exact ih s

/-- Working off the pool opens and closes nothing. -/
theorem settles_drainPool
    (s : AgentState) :
    s.Settles [] .none (drainPool s).2 ∧ (drainPool s).2.callbacks = s.callbacks := by
  unfold drainPool
  split
  · exact ⟨AgentState.settles_of_eq rfl rfl rfl, rfl⟩
  · exact ⟨AgentState.settles_of_eq rfl rfl rfl, rfl⟩

theorem settles_stop
    (a : Agent) :
    a.state.Settles [] .none a.stop.state ∧ a.stop.collaborators = a.collaborators ∧
      a.stop.state.callbacks = a.state.callbacks := by
  unfold stop
  dsimp only
  split
  · exact ⟨AgentState.settles_of_eq rfl rfl rfl, rfl, rfl⟩
  · exact ⟨AgentState.settles_of_eq rfl rfl rfl, rfl, rfl⟩

/-- The state in which what was held is closed. -/
def drained (a : Agent) : AgentState := { a.stop.state with callbacks := .empty }

/-- A shutdown closes what is held, and drains the pool unless a closing panics. -/
theorem state_shutdown
    (a : Agent) :
    a.shutdown.2.state =
      match a.drained.closeSpans a.collaborators a.state.held with
      | (false, s) => s
      | (true, s) => (drainPool s).2 := by
  obtain ⟨_, hcollaborators, hcallbacks⟩ := a.settles_stop
  have hclosed : closeDrained a.stop.collaborators a.stop.state.callbacks.pending a.drained =
      a.drained.closeSpans a.collaborators a.state.held := by
    rw [closeDrained_eq, hcollaborators, hcallbacks]
    rfl
  unfold shutdown
  dsimp only
  split
  · next s hrun =>
      rw [hclosed.symm.trans hrun]
  · next s hrun =>
      rw [hclosed.symm.trans hrun]

/-- A shutdown settles what is held; it loses what comes behind a panic. -/
theorem settles_shutdown
    (a : Agent) :
    a.state.Settles [] ⟨[], a.collaborators.unclosed a.state.held⟩ a.shutdown.2.state ∧
      a.shutdown.2.state.held = [] := by
  obtain ⟨hstopped, _, hcallbacks⟩ := a.settles_stop
  have hclosed := AgentState.settles_closeSpans a.collaborators a.state.held a.drained
  have hall : a.state.Settles [] ⟨[], a.collaborators.unclosed a.state.held⟩
      (a.drained.closeSpans a.collaborators a.state.held).2 := by
    refine AgentState.Settles.within (s := a.stop.state) ?_ hstopped (AgentState.settles_refl _)
    refine ⟨hclosed.numbered, hclosed.opened, List.perm_iff_count.2 fun x => ?_⟩
    have hcount := hclosed.count x
    have hnothing : a.drained.held = [] := rfl
    have hsame : a.drained.closed = a.stop.state.closed := rfl
    have hheld : a.stop.state.held = a.state.held := by
      rw [AgentState.held, hcallbacks, AgentState.held]
    rw [hnothing, hsame] at hcount
    rw [hheld]
    simp only [List.count_append, List.count_nil] at hcount ⊢
    omega
  have hnone : (a.drained.closeSpans a.collaborators a.state.held).2.held = [] := by
    rw [AgentState.held, AgentState.callbacks_closeSpans]
    rfl
  rw [state_shutdown]
  rcases hrun : a.drained.closeSpans a.collaborators a.state.held with ⟨_ | _, s⟩ <;>
    rw [hrun] at hall hnone
  · exact ⟨hall, hnone⟩
  · obtain ⟨hpool, hkept⟩ := settles_drainPool s
    refine ⟨hall.within (AgentState.settles_refl _) hpool, ?_⟩
    dsimp only
    rw [AgentState.held, hkept]
    exact hnone

end Agent

/-! ### Runs -/

/-- A run of the hook of an agent, with what was recorded and lost in it. -/
structure SpanRun where
  agent : Agent
  flow : SpanFlow

namespace SpanRun

/-- The run after one further step. -/
def after (r : SpanRun) : HookStep → SpanRun
  | .event heap event frame =>
      let c := r.agent.collaborators
      let s := { r.agent.state with heap := heap }
      ⟨{ r.agent with state := (s.traceCall c event frame).2 },
        r.flow.andThen (s.flowOn c event frame)⟩
  | .update tps => { r with agent := { r.agent with state := r.agent.state.newConfig tps } }

/-- The run of steps in their order. -/
def ofSteps (a : Agent) (steps : List HookStep) : SpanRun := steps.foldl after ⟨a, .none⟩

theorem ofSteps_append_singleton
    (a : Agent) (steps : List HookStep) (step : HookStep) :
    ofSteps a (steps ++ [step]) = (ofSteps a steps).after step := by
  unfold ofSteps
  rw [List.foldl_append]
  rfl

theorem collaborators_ofSteps
    (a : Agent) (steps : List HookStep) :
    (ofSteps a steps).agent.collaborators = a.collaborators := by
  induction steps using List.reverseRecOn with
  | nil =>
      rfl
  | append_singleton steps step ih =>
      rw [ofSteps_append_singleton, ← ih]
      cases step <;> rfl

/-- What was opened on the way of a run is recorded in its flow, and so is what was lost. -/
theorem settles_ofSteps
    (a : Agent) (steps : List HookStep) :
    a.state.Settles [] (ofSteps a steps).flow (ofSteps a steps).agent.state := by
  induction steps using List.reverseRecOn with
  | nil =>
      exact a.state.settles_refl
  | append_singleton steps step ih =>
      rw [ofSteps_append_singleton]
      cases step with
      | event heap event frame =>
          have hheap : (ofSteps a steps).agent.state.Settles [] .none
              { (ofSteps a steps).agent.state with heap := heap } :=
            AgentState.settles_of_eq rfl rfl rfl
          exact ih.trans ((AgentState.settles_traceCall _ event frame _).within hheap
            (AgentState.settles_refl _))
      | update tps =>
          exact ih.within a.state.settles_refl (AgentState.settles_newConfig tps _)

/-- An agent that was just started has no spans. -/
theorem started_without_spans
    (config : AgentConfig) (process : String) (metrics : List MetricProcessor)
    (spans : List SpanProcessor) (c : Collaborators) (heap : Heap) :
    let s := (Agent.build config process metrics spans c heap).start.state
    s.Numbered ∧ s.opened = [] ∧ s.closed = [] ∧ s.held = [] := by
  intro s
  obtain ⟨diagnostics, hreported⟩ := AgentState.foldl_report id
    (List.replicate (Plugins.failures metrics spans) .pluginExcluded)
    (.initial heap (.ofSize config.workerThreads config.queueCapacity))
  have hbuilt : (Agent.build config process metrics spans c heap).state = _ := hreported
  obtain ⟨hjournal, hspans, hcallbacks⟩ :
      s.journal.spans = #[] ∧ s.spans = 0 ∧ s.callbacks = .empty := by
    simp only [s, Agent.start, hbuilt]
    exact ⟨rfl, rfl, rfl⟩
  have hopened : s.opened = [] := by
    rw [AgentState.opened, hjournal]
    rfl
  refine ⟨?_, hopened, ?_, ?_⟩
  · rw [AgentState.Numbered, hopened, hspans]
    rfl
  · rw [AgentState.closed, hjournal]
    rfl
  · rw [AgentState.held, hcallbacks]
    rfl

/-! ### Balance -/

/-- What was recorded was opened, no span twice, and is accounted for. -/
structure Balanced (r : SpanRun) : Prop where
  opened : r.flow.recorded.Sublist r.agent.state.opened
  distinct : r.flow.recorded.Nodup
  accounted :
    r.flow.recorded.Perm (r.agent.state.closed ++ r.agent.state.held ++ r.flow.lost)

/-- What was recorded is closed, held or lost, each handle once. -/
theorem balanced_ofSteps
    {a : Agent}
    (hnumbered : a.state.Numbered)
    (hopened : a.state.opened = [])
    (hclosed : a.state.closed = [])
    (hheld : a.state.held = [])
    (steps : List HookStep) :
    (ofSteps a steps).Balanced := by
  have hrun := settles_ofSteps a steps
  have hsublist : (ofSteps a steps).flow.recorded.Sublist (ofSteps a steps).agent.state.opened := by
    obtain ⟨new, hnew, hsub⟩ := hrun.opened
    rw [hopened, List.nil_append] at hnew
    rw [hnew]
    exact hsub
  refine ⟨hsublist, ?_, ?_⟩
  · have hserials : ((ofSteps a steps).agent.state.opened.map SpanHandle.serial).Nodup := by
      rw [hrun.numbered hnumbered]
      exact List.nodup_range
    exact hsublist.nodup (List.Nodup.of_map _ hserials)
  · have hbalance := hrun.balance
    rw [hclosed, hheld] at hbalance
    exact hbalance

section Balanced

variable {r : SpanRun}

theorem Balanced.mem_recorded
    (h : r.Balanced)
    {handle : SpanHandle}
    (hheld : handle ∈ r.agent.state.held) :
    handle ∈ r.flow.recorded :=
  h.accounted.mem_iff.2 (List.mem_append_left _ (List.mem_append_right _ hheld))

/-- Closed and held handles are all recorded ones just if none was lost. -/
theorem Balanced.perm_iff
    (h : r.Balanced) :
    r.flow.recorded.Perm (r.agent.state.closed ++ r.agent.state.held) ↔ r.flow.lost = [] := by
  have hlength := h.accounted.length_eq
  constructor
  · intro hperm
    rw [List.length_append, ← hperm.length_eq] at hlength
    exact List.eq_nil_of_length_eq_zero (by omega)
  · intro hlost
    have hperm := h.accounted
    rwa [hlost, List.append_nil] at hperm

/-- After a shutdown all recorded handles are closed, but for lost ones and those behind a panic. -/
theorem Balanced.perm_shutdown
    (h : r.Balanced) :
    r.flow.recorded.Perm (r.agent.shutdown.2.state.closed ++
      (r.flow.lost ++ r.agent.collaborators.unclosed r.agent.state.held)) := by
  obtain ⟨hshutdown, hnothing⟩ := r.agent.settles_shutdown
  refine List.perm_iff_count.2 fun x => ?_
  have hbefore := h.accounted.count_eq x
  have hafter := hshutdown.count x
  rw [hnothing] at hafter
  simp only [List.count_append, List.count_nil] at hbefore hafter ⊢
  omega

/-- Nothing is lost at an event without panics. -/
theorem Balanced.lost_after
    (h : r.Balanced)
    {heap : Heap} {event : TraceEvent} {frame : HostFrame}
    (hcalm : ∀ handle ∈ (r.after (.event heap event frame)).flow.recorded,
        r.agent.collaborators.plugins.closePanics handle = false)
    (hlocals : frame.bindings?.isSome) :
    (r.after (.event heap event frame)).flow.lost = r.flow.lost := by
  have hnone := AgentState.lost_flowOn hlocals (s := { r.agent.state with heap := heap })
    (fun handle hheld => hcalm handle (List.mem_append_left _ (h.mem_recorded hheld)))
    (fun handle hrecorded => hcalm handle (List.mem_append_right _ hrecorded))
  dsimp only [after, SpanFlow.andThen]
  rw [hnone, List.append_nil]

end Balanced

/-- Nothing is lost in a run without panics. -/
theorem lost_ofSteps
    {a : Agent} {steps : List HookStep}
    (hbalanced : ∀ steps, (ofSteps a steps).Balanced)
    (hcalm : ∀ handle ∈ (ofSteps a steps).flow.recorded,
        a.collaborators.plugins.closePanics handle = false)
    (hlocals : ∀ frame ∈ HookStep.frames steps, frame.bindings?.isSome) :
    (ofSteps a steps).flow.lost = [] := by
  induction steps using List.reverseRecOn with
  | nil =>
      rfl
  | append_singleton steps step ih =>
      have hframes : HookStep.frames (steps ++ [step]) =
          HookStep.frames steps ++ HookStep.frames [step] := by
        unfold HookStep.frames
        rw [List.filterMap_append]
      rw [hframes] at hlocals
      rw [ofSteps_append_singleton] at hcalm ⊢
      have hbefore := fun frame hframe => hlocals frame (List.mem_append_left _ hframe)
      cases step with
      | event heap event frame =>
          have hhere := hlocals frame (List.mem_append_right _ List.mem_cons_self)
          rw [← collaborators_ofSteps a steps] at hcalm
          rw [(hbalanced steps).lost_after hcalm hhere]
          refine ih (fun handle hrecorded => ?_) hbefore
          rw [← collaborators_ofSteps a steps]
          exact hcalm handle (List.mem_append_left _ hrecorded)
      | update tps =>
          exact ih hcalm hbefore

/-- Of different things that are here or there, all are here just if none is there. -/
theorem count_eq_one_iff
    {recorded closed lost : List SpanHandle}
    (hdistinct : recorded.Nodup)
    (hperm : recorded.Perm (closed ++ lost)) :
    (∀ handle ∈ recorded, closed.count handle = 1) ↔ lost = [] := by
  constructor
  · intro honce
    by_contra hlost
    obtain ⟨handle, hmem⟩ := List.exists_mem_of_ne_nil lost hlost
    have hcount := hperm.count_eq handle
    rw [List.count_append, honce handle (hperm.mem_iff.2 (List.mem_append_right _ hmem))] at hcount
    have hatMost := List.nodup_iff_count_le_one.1 hdistinct handle
    have hatLeast := List.count_pos_iff.2 hmem
    omega
  · intro hlost handle hhandle
    rw [hlost, List.append_nil] at hperm
    rw [← hperm.count_eq handle]
    exact List.count_eq_one_of_mem hdistinct hhandle

/-- Each span that a run opens is closed exactly once by the end of the shutdown, if and only if
no handle was lost on the way and no closing panics at the end. Handles are lost only to a panic,
of a closing or of the locals. -/
theorem closed_once_iff
    (config : AgentConfig) (process : String) (metrics : List MetricProcessor)
    (spans : List SpanProcessor) (c : Collaborators) (heap : Heap) (steps : List HookStep) :
    let r := ofSteps (Agent.build config process metrics spans c heap).start steps
    let lost := r.flow.lost ++ r.agent.collaborators.unclosed r.agent.state.held
    let ended := r.agent.shutdown.2.state
    (r.flow.recorded.Sublist r.agent.state.opened ∧ r.flow.recorded.Nodup) ∧
      r.flow.recorded.Perm (r.agent.state.closed ++ r.agent.state.held ++ r.flow.lost) ∧
      (r.flow.recorded.Perm (r.agent.state.closed ++ r.agent.state.held) ↔ r.flow.lost = []) ∧
      r.flow.recorded.Perm (ended.closed ++ lost) ∧
      ((∀ handle ∈ r.flow.recorded, ended.closed.count handle = 1) ↔ lost = []) ∧
      ((∀ handle ∈ r.flow.recorded,
          r.agent.collaborators.plugins.closePanics handle = false) →
        (∀ frame ∈ HookStep.frames steps, frame.bindings?.isSome) →
        lost = []) := by
  intro r lost ended
  obtain ⟨hnumbered, hopened, hclosed, hheld⟩ :=
    started_without_spans config process metrics spans c heap
  have hbalanced := balanced_ofSteps hnumbered hopened hclosed hheld
  have hrun : r.Balanced := hbalanced steps
  have hended : r.flow.recorded.Perm (ended.closed ++ lost) := hrun.perm_shutdown
  refine ⟨⟨hrun.opened, hrun.distinct⟩, hrun.accounted, hrun.perm_iff, hended,
    count_eq_one_iff hrun.distinct hended, ?_⟩
  intro hcalm hlocals
  have hkept : r.agent.collaborators.unclosed r.agent.state.held = [] :=
    Collaborators.unclosed_eq_nil fun handle hmem => hcalm handle (hrun.mem_recorded hmem)
  rw [collaborators_ofSteps] at hcalm
  have hnone : r.flow.lost = [] := lost_ofSteps hbalanced hcalm hlocals
  simp only [lost, hnone, hkept, List.append_nil]

/-- A span over a line. -/
def lineSpan : Tracepoint :=
  ⟨"tp", "handler.py", 3,
    .ofList [("span", "line"), ("snapshot", "no_collect"), ("fire_count", "-1"),
      ("fire_period", "0")], [], []⟩

/-- A message at the end of the line. -/
def endMessage : Tracepoint :=
  ⟨"end", "handler.py", 3,
    .ofList [("stage", "line_end"), ("log_msg", "hit"), ("snapshot", "no_collect")], [], []⟩

/-- A processor of spans that may panic where a span is closed. -/
def processor (closePanics : Bool) : SpanProcessor :=
  ⟨true, true, fun _ => .opened, fun _ => closePanics⟩

/-- The run of an agent in which one activation goes on from a line to the next; asking
for the locals may panic by then. -/
def pastLine (spans : List SpanProcessor) (tps : List Tracepoint)
    (locals : Option (List (String × Ref))) : SpanRun :=
  let frame (line : UInt32) (locals : Option (List (String × Ref))) : HostFrame :=
    ⟨⟨"/srv/app/handler.py", "handle", line, 1, locals, none, false, none⟩, []⟩
  let agent := Agent.build .standard "" [] spans Firing.plainCollaborators .empty
  ofSteps agent.start
    [.update tps, .event .empty .line (frame 3 (some [])), .event .empty .line (frame 4 locals)]

/-- Asking for the locals at the end of a line panics before its span is closed; and of two
spans over a line the closing of the first panics. -/
theorem panics_lose_spans :
    let silent := pastLine [processor false] [lineSpan, endMessage] none
    let noisy := pastLine [processor true, processor false] [lineSpan] (some [])
    (silent.flow.recorded.map SpanHandle.serial = [0] ∧
        silent.agent.state.closed ++ silent.agent.state.held = [] ∧
        ¬ ∀ handle ∈ silent.flow.recorded,
          silent.agent.shutdown.2.state.closed.count handle = 1) ∧
      noisy.flow.recorded.map SpanHandle.serial = [0, 1] ∧
        (noisy.agent.state.closed ++ noisy.agent.state.held).map SpanHandle.serial = [0] ∧
        ¬ ∀ handle ∈ noisy.flow.recorded,
          noisy.agent.shutdown.2.state.closed.count handle = 1 := by
  decide +kernel

end SpanRun
end LiveProbe
