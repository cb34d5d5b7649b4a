import LiveProbe.Proofs.Agent.SpanLedger
import LiveProbe.Proofs.Agent.Working
import LiveProbe.Proofs.Context.Deliveries

/-!
# Contexts and callbacks at an event

Which contexts an event begins, and which callbacks it takes and leaves.

**Specification.**  Between two states contexts begin and callbacks are added, all of them for
the activation of one frame; those that will run actions are listed (`AgentState.Registers`).

**Results.**
* `registers_hand`: a context leaves spans to be closed, and no actions to be run.
* `registers_of_does`: so does any work, except that of leaving actions for the end of a line.
* `registers_dispatched`: the same for an event, also where it panics.
* `sublist_firedOn`: what fires at an event was handed to its contexts.
* `traceCall_eq_dispatched`: an enabled hook does what the dispatch of the event would do.
-/

namespace LiveProbe

/-- The actions that a callback will run, with the occasion. -/
def DeferredCallback.deferred? (callback : DeferredCallback) :
    Option (CallbackLocation × List Action) :=
  match callback.payload with
  | .closeSpans _ => none
  | .runActions actions => some (callback.location, actions)

/-- A span that is left open waits for the activation of the frame. -/
def ActionResult.IsOf (frame : HostFrame) : ActionResult → Prop
  | .span _ _ (some location) => ∃ kind, location = .ofFrame frame kind
  | _ => True

namespace IdGenerator

theorem nextMany_add
    (g : IdGenerator) (m n : Nat) :
    (g.nextMany (m + n)).2 = ((g.nextMany m).2.nextMany n).2 := by
  induction m generalizing g with
  | zero => rw [Nat.zero_add, nextMany]
  | succ m ih =>
      rw [Nat.succ_add]
      exact ih g.next.2

end IdGenerator

namespace CallbackRegistry

variable {r : CallbackRegistry}

/-- A count of zero means that nothing is pending. -/
theorem pending_of_isEmpty
    (hcounted : r.IsCounted)
    (hempty : r.isEmpty = true) :
    r.pending = [] := by
  rw [isEmpty, beq_iff_eq, hcounted] at hempty
  exact List.eq_nil_of_length_eq_zero hempty

theorem takeMatching_of_isEmpty
    (hempty : r.isEmpty = true)
    (event : TraceEvent) (frame : HostFrame) :
    r.takeMatching event frame = ([], r) := by
  simp [takeMatching, hempty]

/-- The callbacks that wait for an event are taken, and all others left. -/
theorem takeMatching_of_isCounted
    (hcounted : r.IsCounted)
    (event : TraceEvent) (frame : HostFrame) :
    (r.takeMatching event frame).1 =
        r.pending.filter (fun callback => callback.location.matches event frame) ∧
      (r.takeMatching event frame).2.pending =
        r.pending.filter fun callback => !callback.location.matches event frame := by
  unfold takeMatching
  split
  · next hempty => simp [pending_of_isEmpty hcounted hempty]
  · rw [List.partition_eq_filter_filter]
    exact ⟨rfl, rfl⟩

end CallbackRegistry

namespace AgentState

/-! ### Contexts and callbacks -/

/-- Between two states a number of contexts began, and callbacks were added for the activation
of a frame, of which some will run actions. -/
structure Registers (frame : HostFrame) (begun : Nat)
    (deferred : List (CallbackLocation × List Action)) (s t : AgentState) : Prop where
  enabled : t.enabled = s.enabled
  index : t.index = s.index
  contexts : t.contexts = (s.contexts.nextMany begun).2
  counted : s.callbacks.IsCounted → t.callbacks.IsCounted
  pending : ∃ more, t.callbacks.pending = s.callbacks.pending ++ more ∧
    (∀ callback ∈ more, ∃ kind, callback.location = .ofFrame frame kind) ∧
    more.filterMap DeferredCallback.deferred? = deferred

section Registers

variable {frame : HostFrame} {s t u : AgentState} {m n : Nat}
  {deferred more : List (CallbackLocation × List Action)}

/-- Where index, numbers and callbacks stay, nothing is registered. -/
theorem registers_of_eq
    (henabled : t.enabled = s.enabled)
    (hindex : t.index = s.index)
    (hcontexts : t.contexts = s.contexts)
    (hcallbacks : t.callbacks = s.callbacks) :
    Registers frame 0 [] s t := by
  refine ⟨henabled, hindex, hcontexts, fun hcounted => ?_, [], ?_, by simp, rfl⟩
  · rwa [hcallbacks]
  · rw [hcallbacks, List.append_nil]

theorem registers_refl
    (frame : HostFrame) (s : AgentState) :
    Registers frame 0 [] s s :=
  registers_of_eq rfl rfl rfl rfl

/-- Stretches of a run may be joined, and what they left to be run follows in order. -/
theorem Registers.trans
    (h : Registers frame m deferred s t)
    (h' : Registers frame n more t u) :
    Registers frame (m + n) (deferred ++ more) s u := by
  obtain ⟨first, hfirst, hown, hdeferred⟩ := h.pending
  obtain ⟨second, hsecond, hown', hdeferred'⟩ := h'.pending
  refine ⟨h'.enabled.trans h.enabled, h'.index.trans h.index, ?_,
    fun hcounted => h'.counted (h.counted hcounted), first ++ second, ?_, ?_, ?_⟩
  · rw [h'.contexts, h.contexts, IdGenerator.nextMany_add]
  · rw [hsecond, hfirst, List.append_assoc]
  · intro callback hcallback
    exact (List.mem_append.1 hcallback).elim (hown callback) (hown' callback)
  · rw [List.filterMap_append, hdeferred, hdeferred']

/-- What waits to be run is what waited before, and what was left since. -/
theorem Registers.filterMap_pending
    (h : Registers frame n deferred s t) :
    t.callbacks.pending.filterMap DeferredCallback.deferred? =
      s.callbacks.pending.filterMap DeferredCallback.deferred? ++ deferred := by
  obtain ⟨more, hpending, -, hdeferred⟩ := h.pending
  rw [hpending, List.filterMap_append, hdeferred]

end Registers

/-! ### Delivery -/

section Delivery

variable {c : Collaborators} {frame : HostFrame}

/-- An answer of a collaborator registers nothing, also where it uninstalls or reenters. -/
theorem registers_react
    (reaction : Reaction) (s : AgentState) :
    Registers frame 0 [] s (s.react c deliverInside reaction).2 := by
  cases reaction <;> exact registers_of_eq rfl rfl rfl rfl

theorem registers_pushSnapshot
    (snapshot : Snapshot) (s : AgentState) :
    Registers frame 0 [] s (s.pushSnapshot c deliverInside snapshot).2 := by
  unfold pushSnapshot
  cases c.push with
  | direct reaction =>
      have hkept : Registers frame 0 [] s { s with journal := s.journal.keep snapshot } :=
        registers_of_eq rfl rfl rfl rfl
      exact hkept.trans (registers_react _ _)
  | queued =>
      rcases s.pool.enqueue snapshot with ⟨_ | _, pool⟩ <;> exact registers_of_eq rfl rfl rfl rfl

/-- The closing of spans registers nothing, even if it panics on the way. -/
theorem registers_closeSpans
    (handles : List SpanHandle) (s : AgentState) :
    Registers frame 0 [] s (closeSpans c handles s).2 := by
  induction handles generalizing s with
  | nil => exact registers_refl frame s
  | cons handle rest ih =>
      have hclosed : Registers frame 0 [] s { s with journal := s.journal.span (.closed handle) } :=
        registers_of_eq rfl rfl rfl rfl
      unfold closeSpans
      dsimp only
      split
      · exact hclosed
      · exact hclosed.trans (ih _)

/-- A delivery leaves at most the closing of spans. -/
theorem registers_deliver
    (context : UInt64)
    {r : ActionResult}
    (hr : r.IsOf frame)
    (s : AgentState) :
    Registers frame 0 [] s (s.deliver c deliverInside context r).2 := by
  cases r with
  | log tracepoint message =>
      have hlogged : Registers frame 0 [] s
          { s with journal := s.journal.log ⟨message, tracepoint, context⟩ } :=
        registers_of_eq rfl rfl rfl rfl
      exact hlogged.trans (registers_react _ _)
  | snapshot snapshot => exact registers_pushSnapshot snapshot s
  | metric tracepoint => exact registers_refl frame s
  | span tracepoint handles location =>
      cases location with
      | some location =>
          refine ⟨rfl, rfl, rfl, fun _ => CallbackRegistry.count_register _ _,
            [⟨location, .closeSpans handles⟩], rfl, ?_, rfl⟩
          intro callback hcallback
          rw [List.mem_singleton.1 hcallback]
          exact hr
      | none =>
          have hclosed : Registers frame 0 [] s (closeSpans c handles s).2 :=
            registers_closeSpans handles s
          unfold deliver
          dsimp only
          rcases hrun : closeSpans c handles s with ⟨_ | _, closed⟩ <;> rw [hrun] at hclosed <;>
            exact hclosed

theorem registers_deliverAll
    (context : UInt64)
    {results : List ActionResult}
    (hresults : ∀ r ∈ results, r.IsOf frame)
    (s : AgentState) :
    Registers frame 0 [] s (s.deliverAll c deliverInside context results) := by
  induction results generalizing s with
  | nil => exact registers_refl frame s
  | cons r rest ih =>
      rw [List.forall_mem_cons] at hresults
      have hreported : ∀ (outcome : DeliveryOutcome) (t : AgentState),
          Registers frame 0 [] t (t.reportDelivery outcome) := by
        intro outcome t
        cases outcome <;> exact registers_of_eq rfl rfl rfl rfl
      have hfirst : Registers frame 0 [] s (s.deliver c deliverInside context r).2 :=
        registers_deliver context hresults.1 s
      exact (hfirst.trans (hreported _ _)).trans (ih hresults.2 _)

end Delivery

end AgentState

/-! ### Contexts -/

namespace Firing

variable {c : Collaborators} {event : TraceEvent} {frame : HostFrame} {actions : List Action}

theorem registers_begin?
    {s : AgentState} {f : Firing}
    (hbegin : begin? c event frame actions s = some f) :
    AgentState.Registers frame 1 [] s f.agent := by
  simp only [begin?, Option.map_eq_some_iff] at hbegin
  obtain ⟨_, _, rfl⟩ := hbegin
  exact ⟨rfl, rfl, rfl, id, [], (List.append_nil _).symm, by simp, rfl⟩

/-- None of the small changes of processing registers anything. -/
theorem admits_registers
    (frame : HostFrame) :
    Acting.Admits fun f g => AgentState.Registers frame 0 [] f.agent g.agent where
  refl := fun _ => AgentState.registers_refl _ _
  trans := AgentState.Registers.trans
  heap := fun _ _ => AgentState.registers_of_eq rfl rfl rfl rfl
  captures := fun _ _ => AgentState.registers_of_eq rfl rfl rfl rfl
  emit := fun _ _ => AgentState.registers_of_eq rfl rfl rfl rfl
  capture := fun _ _ _ => AgentState.registers_refl _ _
  attach := fun _ _ _ => AgentState.registers_refl _ _
  report := fun _ _ => AgentState.registers_of_eq rfl rfl rfl rfl
  enter := fun _ _ _ => AgentState.registers_refl _ _
  leave := fun _ _ _ => AgentState.registers_refl _ _
  record := fun _ _ => AgentState.registers_of_eq rfl rfl rfl rfl

/-- Processing begins no context and registers nothing. -/
theorem registers_process
    (c : Collaborators) (frame : HostFrame) (actions : List Action) (f : Firing) :
    AgentState.Registers frame 0 [] f.agent (f.process c actions).2.agent := by
  have hprep := (admits_registers frame).toPrepares
  have hspan : ∀ (tp : Tracepoint) (spanType : SpanType) (name : Option String),
      Acting.Within (fun f g => AgentState.Registers frame 0 [] f.agent g.agent)
        (Acting.processSpan c tp spanType name) := by
    intro tp spanType name
    refine Acting.within_get fun f => Acting.within_bind hprep
      (Acting.within_openSpans hprep
        (fun f processor request => AgentState.registers_of_eq rfl rfl rfl rfl) _ _)
      (fun handles => ?_) f
    split
    · exact Acting.within_pure hprep false
    · exact Acting.within_modify hprep (fun f => AgentState.registers_refl _ _)
        (Acting.within_pure hprep true)
  exact Acting.admits_process (admits_registers frame) c hspan actions f

/-- The results of a context wait for its own activation. -/
theorem isOf_of_leaves
    {x : TriggerContext} {fired : List Action} {results : List ActionResult}
    (hleaves : List.Forall₂ (Action.Leaves c x) fired results) :
    ∀ r ∈ results, r.IsOf x.frame := by
  induction hleaves with
  | nil => simp
  | @cons a r _ _ hr _ ih =>
      refine List.forall_mem_cons.2 ⟨?_, ih⟩
      unfold Action.Leaves at hr
      split at hr
      · obtain ⟨s, rfl, -⟩ := hr
        trivial
      · obtain ⟨text, rfl⟩ := hr
        trivial
      · subst hr
        trivial
      · obtain ⟨handles, -, -, rfl⟩ := hr
        unfold Acting.closeOn
        split
        · trivial
        · exact ⟨_, rfl⟩

/-- What a context adds to its snapshots leaves its spans alone. -/
theorem isOf_finished
    {r : ActionResult}
    (hr : r.IsOf frame)
    (messages : List (String × String)) (attached : List (String × WatchResult))
    (lookup : SortedMap Variable) (now : Nat) :
    (r.finished messages attached lookup now).IsOf frame := by
  cases r with
  | snapshot s => trivial
  | _ => exact hr

/-- The end of a context leaves at most the closing of spans, for the activation of its frame. -/
theorem registers_close
    {f : Firing}
    (hresults : ∀ r ∈ f.context.results, r.IsOf frame) :
    AgentState.Registers frame 0 [] f.agent (f.close c AgentState.deliverInside).agent := by
  unfold close
  split
  · exact AgentState.registers_refl _ _
  · unfold deliverResults
    split
    · exact AgentState.registers_refl _ _
    · have hread : AgentState.Registers frame 0 [] f.agent (f.agent.readClock c).2 :=
        AgentState.registers_of_eq rfl rfl rfl rfl
      refine hread.trans (AgentState.registers_deliverAll _ ?_ _)
      rw [finishedResults_eq]
      intro r hr
      obtain ⟨unfinished, hunfinished, rfl⟩ := List.mem_map.1 hr
      exact isOf_finished (hresults unfinished hunfinished) _ _ _ _

end Firing

/-! ### Events -/

namespace AgentState

section Work

variable {c : Collaborators} {event : TraceEvent} {frame : HostFrame} {works : List Work}
  {fired : List Action} {s t : AgentState}

/-- A context leaves spans to be closed, and no actions to be run. -/
theorem registers_hand
    {actions : List Action} {f : Firing}
    (hbegin : Firing.begin? c event frame actions s = some f) :
    Registers frame 1 [] s ((f.process c actions).2.close c deliverInside).agent := by
  have hbegun := Firing.registers_begin? hbegin
  have hprocessed := Firing.registers_process c frame actions f
  obtain ⟨-, new, hresults, hleaves⟩ := Firing.leaves_process c actions f
  rw [Firing.begin_results hbegin, List.nil_append] at hresults
  have hclosed : Registers frame 0 [] (f.process c actions).2.agent
      ((f.process c actions).2.close c deliverInside).agent := by
    refine Firing.registers_close ?_
    rw [hresults, ← Firing.frame_begin? hbegin]
    exact Firing.isOf_of_leaves hleaves
  exact (hbegun.trans hprocessed).trans hclosed

/-- The callback for actions that wait for the end of a line. -/
def deferrals (frame : HostFrame) (actions : List Action) :
    List (CallbackLocation × List Action) :=
  if actions.isEmpty then [] else [(.ofFrame frame (.lineExit frame.top.line), actions)]

/-- Actions for the end of a line are one callback, if there are any. -/
theorem registers_deferActions
    (frame : HostFrame) (actions : List Action) (s : AgentState) :
    Registers frame 0 (deferrals frame actions) s (s.deferActions frame actions) := by
  unfold deferActions deferrals
  split
  · exact registers_refl frame s
  · refine ⟨rfl, rfl, rfl, fun _ => CallbackRegistry.count_register _ _,
      [⟨.ofFrame frame (.lineExit frame.top.line), .runActions actions⟩], rfl, ?_, rfl⟩
    intro callback hcallback
    rw [List.mem_singleton.1 hcallback]
    exact ⟨_, rfl⟩

/-- Work begins a context for each list of actions that it hands on, and leaves to be run what
it leaves for the end of a line. -/
theorem registers_of_does
    (h : Does c event frame works fired s t) :
    Registers frame (works.filterMap Work.handed?).length
      ((works.filterMap Work.left?).flatMap (deferrals frame)) s t := by
  induction h with
  | nothing s => exact registers_refl frame s
  | @close handles works fired s t _ ih =>
      have hall := (registers_closeSpans handles s).trans ih
      rwa [Nat.zero_add, List.nil_append] at hall
  | @leave actions works fired s t _ ih =>
      have hall := (registers_deferActions frame actions s).trans ih
      rwa [Nat.zero_add] at hall
  | @hand actions works fired s t f hbegin _ ih =>
      have hall := (registers_hand hbegin).trans ih
      rwa [Nat.add_comm, List.nil_append] at hall

end Work

variable (c : Collaborators) (event : TraceEvent) (frame : HostFrame)

/-- After its callbacks are taken, an event begins its contexts and leaves callbacks of its own
activation. -/
theorem registers_dispatch
    (s : AgentState) :
    ∃ deferred, Registers frame (s.handedInDispatch c event frame).length deferred
      { s with callbacks := (s.callbacks.takeMatching event frame).2 }
      (s.dispatch c event frame).2 := by
  obtain ⟨works, -, -, hhanded, hdoes⟩ := achieves_dispatch c event frame s
  rw [hhanded, contextsOf, List.length_map]
  exact ⟨_, registers_of_does hdoes⟩

/-- What fires at an event was handed to its contexts. -/
theorem sublist_firedOn
    (s : AgentState) :
    (s.firedOn c event frame).Sublist
      ((s.handedOn c event frame).flatMap Handed.actions) := by
  unfold firedOn handedOn
  cases s.shortcut? event frame with
  | some answer => exact List.Sublist.refl []
  | none =>
      obtain ⟨works, -, -, hhanded, hdoes⟩ := achieves_dispatch c event frame s
      dsimp only
      rw [hhanded]
      exact sublist_of_does hdoes

/-! ### Answers without a dispatch -/

/-- The agent after the dispatch of an event, which reports a panic. -/
def dispatched (s : AgentState) : AgentState :=
  match s.dispatch c event frame with
  | (true, s) => s
  | (false, s) => s.report .hookPanicked

theorem registers_dispatched
    (s : AgentState) :
    ∃ deferred, Registers frame (s.handedInDispatch c event frame).length deferred
      { s with callbacks := (s.callbacks.takeMatching event frame).2 }
      (s.dispatched c event frame) := by
  obtain ⟨deferred, hdispatch⟩ := registers_dispatch c event frame s
  unfold dispatched
  rcases hrun : s.dispatch c event frame with ⟨_ | _, t⟩ <;> rw [hrun] at hdispatch
  · have hreported : Registers frame 0 [] t (t.report .hookPanicked) :=
      registers_of_eq rfl rfl rfl rfl
    exact ⟨deferred ++ [], hdispatch.trans hreported⟩
  · exact ⟨deferred, hdispatch⟩

section Idle

variable {s : AgentState}

/-- An event that takes no callback, in a file without triggers, does nothing. -/
theorem dispatch_of_idle
    (htake : s.callbacks.takeMatching event frame = ([], s.callbacks))
    (hfile : s.index.hasFile frame.top.file = false) :
    s.dispatched c event frame = s ∧ s.handedInDispatch c event frame = [] ∧
      s.firedInDispatch c event frame = [] := by
  unfold dispatched dispatch handedInDispatch firedInDispatch
  rw [htake]
  simp [runCallbacks, handedByAll, firedByAll, hfile]

/-- An enabled hook spares a dispatch only without callbacks and without triggers for the
file. -/
theorem idle_of_shortcut?
    (henabled : s.enabled = true)
    {answer : Continuation}
    (hshortcut : s.shortcut? event frame = some answer) :
    s.callbacks.isEmpty = true ∧ s.index.hasFile frame.top.file = false := by
  unfold shortcut? at hshortcut
  rw [henabled, Bool.not_true, if_neg (by simp)] at hshortcut
  split at hshortcut
  · next hnothing =>
      rw [Bool.and_eq_true, TriggerIndex.isEmpty, List.isEmpty_iff] at hnothing
      exact ⟨hnothing.2, by simp [TriggerIndex.hasFile, hnothing.1]⟩
  · split at hshortcut
    · next hcall =>
        rw [Bool.and_eq_true, Bool.and_eq_true, Bool.not_eq_true'] at hcall
        exact ⟨hcall.1.2, hcall.2⟩
    · cases hshortcut

/-- An enabled hook does what the dispatch of the event would do. -/
theorem traceCall_eq_dispatched
    (henabled : s.enabled = true) :
    (s.traceCall c event frame).2 = s.dispatched c event frame ∧
      s.handedOn c event frame = s.handedInDispatch c event frame ∧
      s.firedOn c event frame = s.firedInDispatch c event frame := by
  unfold traceCall handedOn firedOn
  cases hshortcut : s.shortcut? event frame with
  | none =>
      refine ⟨?_, rfl, rfl⟩
      unfold dispatched
      dsimp only
      rcases s.dispatch c event frame with ⟨_ | _, t⟩ <;> rfl
  | some answer =>
      obtain ⟨hcallbacks, hfile⟩ := idle_of_shortcut? event frame henabled hshortcut
      have htake := CallbackRegistry.takeMatching_of_isEmpty hcallbacks event frame
      obtain ⟨hstate, hhanded, hfired⟩ := dispatch_of_idle c event frame htake hfile
      exact ⟨hstate.symm, hhanded.symm, hfired.symm⟩

end Idle

/-! ### Steps -/

/-- The agent after a step. -/
def after (c : Collaborators) (s : AgentState) : HookStep → AgentState
  | .event heap event frame => ({ s with heap := heap }.traceCall c event frame).2
  | .update tps => s.newConfig tps

/-- An update has no bearing on callbacks. -/
theorem newConfig_callbacks
    (tps : List Tracepoint) (s : AgentState) :
    (s.newConfig tps).callbacks = s.callbacks ∧ (s.newConfig tps).enabled = s.enabled := by
  unfold newConfig
  dsimp only
  obtain ⟨diagnostics, hreported⟩ := foldl_report (fun _ => .invalidTracepoint)
    (TriggerIndex.invalid tps)
    { s with
      index := (s.index.rebuild s.ledger tps).1
      ledger := (s.index.rebuild s.ledger tps).2 }
  rw [hreported]
  exact ⟨rfl, rfl⟩

/-- An enabled hook stays enabled, and its callbacks stay counted. -/
theorem counted_after
    {s : AgentState}
    (henabled : s.enabled = true)
    (hcounted : s.callbacks.IsCounted)
    (step : HookStep) :
    (s.after c step).enabled = true ∧ (s.after c step).callbacks.IsCounted := by
  cases step with
  | event heap event frame =>
      have hstate := (traceCall_eq_dispatched c event frame (s := { s with heap := heap })
        henabled).1
      obtain ⟨deferred, hregisters⟩ := registers_dispatched c event frame { s with heap := heap }
      rw [after, hstate]
      exact ⟨hregisters.enabled.trans henabled,
        hregisters.counted (CallbackRegistry.count_takeMatching hcounted event frame)⟩
  | update tps =>
      obtain ⟨hcallbacks, hsame⟩ := newConfig_callbacks tps s
      rw [after, hsame, hcallbacks]
      exact ⟨henabled, hcounted⟩

end AgentState
end LiveProbe
