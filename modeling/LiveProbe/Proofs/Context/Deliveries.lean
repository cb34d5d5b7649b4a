import LiveProbe.Proofs.Context.Results

/-!
# One delivery for each firing

Firings on record against what a context hands to its collaborators.

**Deliveries.**  A delivery is a call of a collaborator (`Delivery`); a state receives it
whatever the collaborator makes of it (`AgentState.receive`).  How a call ends shows
elsewhere only: in diagnostics, in answers to events from within, in the installation of
the hook and in readings of the clock.  States are compared apart from these
(`AgentState.apartFromAnswers`).

**Specification.**  Each action that fires owes deliveries of its kind (`Action.Owes`).

**Results.**
* `withholds_process`: processing delivers nothing.
* `receives_deliverAll`: results are delivered one after another, whether or not deliveries
  fail or panic.
* `receives_close`: closing delivers the results that were left.
* `firings_match_deliveries`: what fired is on record, is delivered once and in order, and
  nothing else is.
-/

namespace LiveProbe

/-- A call by which a result is delivered. -/
inductive Delivery
  | log (r : LogRecord)
  | push (s : Snapshot)
  | register (callback : DeferredCallback)
  | close (handle : SpanHandle)

/-- The spans that are handed on or closed. -/
def Delivery.handles : Delivery → List SpanHandle
  | log _ => []
  | push _ => []
  | register callback => callback.handles
  | close handle => [handle]

/-- The calls by which a result is delivered. -/
def ActionResult.deliveries (context : UInt64) : ActionResult → List Delivery
  | .log tracepoint message => [.log ⟨message, tracepoint, context⟩]
  | .snapshot s => [.push s]
  | .metric _ => []
  | .span _ handles (some location) => [.register ⟨location, .closeSpans handles⟩]
  | .span _ handles none => handles.map .close

/-- The deliveries that an action owes once it has fired in a context. -/
def Action.Owes (c : Collaborators) (x : TriggerContext) (a : Action) (ds : List Delivery) :
    Prop :=
  match a.config with
  | .snapshot => ∃ s, ds = [.push s] ∧ s.tracepoint = a.tracepoint ∧ s.isOpen = false
  | .log _ => ∃ text, ds = [.log ⟨Limits.logLead ++ text, a.tracepoint.id, x.id⟩]
  | .metric _ => ds = []
  | .span spanType name =>
      ∃ handles, handles ≠ [] ∧
        handles.map SpanHandle.processor =
          c.plugins.openers (x.spanRequest a.tracepoint spanType name) ∧
        ds =
          match Acting.closeOn x spanType with
          | some location => [.register ⟨location, .closeSpans handles⟩]
          | none => handles.map .close

namespace AgentState

/-- The state after a delivery, whatever comes of it. -/
def receive (c : Collaborators) (s : AgentState) : Delivery → AgentState
  | .log r => { s with journal := s.journal.log r }
  | .push snapshot =>
      match c.push with
      | .direct _ => { s with journal := s.journal.keep snapshot }
      | .queued => { s with pool := (s.pool.enqueue snapshot).2 }
  | .register callback => { s with callbacks := s.callbacks.register callback }
  | .close handle => { s with journal := s.journal.span (.closed handle) }

/-- The state but for what answers to deliveries change. -/
def apartFromAnswers (s : AgentState) : AgentState :=
  { s with
    readings := 0
    installation := ⟨false, false⟩
    journal := { s.journal with reentries := #[], diagnostics := #[] } }

/-- Nothing is delivered from one state to the next. -/
structure Withholds (s t : AgentState) : Prop where
  logs : t.journal.logs = s.journal.logs
  snapshots : t.journal.snapshots = s.journal.snapshots
  pool : t.pool = s.pool
  callbacks : t.callbacks = s.callbacks
  closed : t.closed = s.closed

theorem Withholds.trans
    {s t u : AgentState}
    (h : s.Withholds t)
    (h' : t.Withholds u) :
    s.Withholds u :=
  ⟨h'.logs.trans h.logs, h'.snapshots.trans h.snapshots, h'.pool.trans h.pool,
    h'.callbacks.trans h.callbacks, h'.closed.trans h.closed⟩

/-- Up to answers, one state is the other after deliveries. -/
def Receives (c : Collaborators) (s : AgentState) (ds : List Delivery) (t : AgentState) : Prop :=
  t.apartFromAnswers = (ds.foldl (receive c) s).apartFromAnswers

/-! ### Deliveries one after another -/

section Receives

variable {c : Collaborators} {s t u : AgentState} {ds es : List Delivery}

/-- A delivery is received alike, whatever the answers to earlier ones. -/
theorem apartFromAnswers_receive
    (c : Collaborators) (s : AgentState) (d : Delivery) :
    (s.receive c d).apartFromAnswers = s.apartFromAnswers.receive c d := by
  cases d with
  | log r => rfl
  | push snapshot =>
      unfold receive
      cases c.push <;> rfl
  | register callback => rfl
  | close handle => rfl

theorem apartFromAnswers_foldl
    (c : Collaborators) (ds : List Delivery) (s : AgentState) :
    (ds.foldl (receive c) s).apartFromAnswers = ds.foldl (receive c) s.apartFromAnswers := by
  induction ds generalizing s with
  | nil =>
      rfl
  | cons d rest ih =>
      rw [List.foldl_cons, List.foldl_cons, ih, apartFromAnswers_receive]

/-- Answers have no bearing on what is received. -/
theorem receives_nil
    (h : t.apartFromAnswers = s.apartFromAnswers) :
    s.Receives c [] t :=
  h

theorem Receives.append
    (h : s.Receives c ds t)
    (h' : t.Receives c es u) :
    s.Receives c (ds ++ es) u := by
  unfold Receives at h h' ⊢
  rw [h', apartFromAnswers_foldl, h, ← apartFromAnswers_foldl, List.foldl_append]

/-- What the collaborators answer does not matter for what is received. -/
theorem Receives.after
    (h : s.Receives c ds t)
    (h' : u.apartFromAnswers = t.apartFromAnswers) :
    s.Receives c ds u :=
  Eq.trans h' h

end Receives

/-! ### Results one after another -/

variable {c : Collaborators}

theorem apartFromAnswers_react
    (reaction : Reaction) (s : AgentState) :
    (s.react c deliverInside reaction).2.apartFromAnswers = s.apartFromAnswers := by
  cases reaction <;> rfl

/-- A snapshot is handed to the push service once. -/
theorem receives_pushSnapshot
    (snapshot : Snapshot) (s : AgentState) :
    s.Receives c [.push snapshot] (s.pushSnapshot c deliverInside snapshot).2 := by
  unfold pushSnapshot Receives
  rw [List.foldl_cons, List.foldl_nil, receive]
  cases hpush : c.push with
  | direct reaction => exact apartFromAnswers_react _ _
  | queued => rcases s.pool.enqueue snapshot with ⟨_ | _, pool⟩ <;> rfl

theorem receives_closeSpans
    (hcalm : ∀ handle, c.plugins.closePanics handle = false)
    (handles : List SpanHandle) (s : AgentState) :
    s.Receives c (handles.map .close) (closeSpans c handles s).2 := by
  induction handles generalizing s with
  | nil =>
      exact receives_nil rfl
  | cons handle rest ih =>
      unfold closeSpans
      rw [if_neg (by simp [hcalm handle])]
      exact ih _

/-- Each result is delivered once, to the collaborator for its kind. -/
theorem receives_deliver
    (hcalm : ∀ handle, c.plugins.closePanics handle = false)
    (context : UInt64) (r : ActionResult) (s : AgentState) :
    s.Receives c (r.deliveries context) (s.deliver c deliverInside context r).2 := by
  cases r with
  | log tracepoint message => exact apartFromAnswers_react _ _
  | snapshot snapshot => exact receives_pushSnapshot snapshot s
  | metric tracepoint => exact receives_nil rfl
  | span tracepoint handles location =>
      cases location with
      | some location => exact Eq.refl _
      | none =>
          have hclosed := receives_closeSpans hcalm handles s
          unfold deliver
          dsimp only
          rcases hrun : closeSpans c handles s with ⟨_ | _, closed⟩ <;> rw [hrun] at hclosed <;>
            exact hclosed

/-- A delivery that fails or panics is reported, and the next one follows. -/
theorem receives_deliverAll
    (hcalm : ∀ handle, c.plugins.closePanics handle = false)
    (context : UInt64) (results : List ActionResult) (s : AgentState) :
    s.Receives c (results.flatMap (ActionResult.deliveries context))
      (s.deliverAll c deliverInside context results) := by
  induction results generalizing s with
  | nil =>
      exact receives_nil rfl
  | cons r rest ih =>
      rw [List.flatMap_cons]
      have hreported : ∀ (outcome : DeliveryOutcome) (t : AgentState),
          (t.reportDelivery outcome).apartFromAnswers = t.apartFromAnswers := by
        intro outcome t
        cases outcome <;> rfl
      exact ((receives_deliver hcalm context r s).after (hreported _ _)).append (ih _)

end AgentState

/-! ### Contexts -/

namespace ActionResult

/-- A result as it is delivered. -/
def finished (messages : List (String × String)) (attached : List (String × WatchResult))
    (lookup : SortedMap Variable) (now : Nat) : ActionResult → ActionResult
  | .snapshot s => .snapshot (s.finished messages attached lookup now)
  | r => r

end ActionResult

namespace Firing

variable {c : Collaborators}

/-- All results are finished in the same way, each for itself. -/
theorem finishedResults_eq
    (x : TriggerContext) (now : Nat) :
    finishedResults x now =
      x.results.map (ActionResult.finished (x.results.filterMap ActionResult.message?) x.attached
        (SortedMap.ofList x.capture.table.lookup) now) := by
  refine List.map_congr_left fun r _ => ?_
  cases r <;> rfl

/-- A finished snapshot is completed and is still of its tracepoint. -/
theorem owes_finished
    {x : TriggerContext} {a : Action} {r : ActionResult}
    (h : a.Leaves c x r)
    (messages : List (String × String)) (attached : List (String × WatchResult))
    (lookup : SortedMap Variable) (now : Nat) :
    a.Owes c x ((r.finished messages attached lookup now).deliveries x.id) := by
  unfold Action.Leaves at h
  unfold Action.Owes
  cases hconfig : a.config with
  | snapshot =>
      rw [hconfig] at h
      obtain ⟨s, rfl, htp⟩ := h
      refine ⟨_, rfl, ?_, Snapshot.isOpen_complete _ now⟩
      have hmessage : ∀ message, (s.withMessage message).tracepoint = s.tracepoint := by
        intro message
        cases message <;> rfl
      unfold Snapshot.finished Snapshot.complete
      dsimp only
      split <;> exact (hmessage _).trans htp
  | log template =>
      rw [hconfig] at h
      obtain ⟨text, rfl⟩ := h
      exact ⟨text, rfl⟩
  | metric definition =>
      rw [hconfig] at h
      obtain rfl := h
      rfl
  | span spanType name =>
      rw [hconfig] at h
      obtain ⟨handles, hsome, hopeners, rfl⟩ := h
      refine ⟨handles, hsome, hopeners, ?_⟩
      cases hlocation : Acting.closeOn x spanType <;> rfl

/-- What is added at the end leaves the handles alone. -/
theorem handles_finished
    (r : ActionResult) (messages : List (String × String)) (attached : List (String × WatchResult))
    (lookup : SortedMap Variable) (now : Nat) :
    (r.finished messages attached lookup now).handles = r.handles := by
  cases r <;> rfl

/-- Closing delivers the results that were left. -/
theorem receives_close
    (hcalm : ∀ handle, c.plugins.closePanics handle = false)
    {f : Firing}
    (hopen : f.context.state ≠ .closed) :
    ∃ now, f.agent.Receives c
      ((finishedResults f.context now).flatMap (ActionResult.deliveries f.context.id))
      (f.close c AgentState.deliverInside).agent := by
  unfold close
  rw [if_neg hopen]
  unfold deliverResults
  split
  · next hresults =>
      have hnone : f.context.results = [] := List.isEmpty_iff.1 hresults
      refine ⟨0, ?_⟩
      rw [finishedResults_eq, hnone]
      exact AgentState.receives_nil rfl
  · have hread : f.agent.Receives c [] (f.agent.readClock c).2 := AgentState.receives_nil rfl
    exact ⟨_, hread.append (AgentState.receives_deliverAll hcalm f.context.id
      (finishedResults f.context (f.agent.readClock c).1) (f.agent.readClock c).2)⟩

/-- None of the small changes of processing delivers anything. -/
theorem admits_withholds :
    Acting.Admits fun f g => f.agent.Withholds g.agent where
  refl := fun _ => ⟨rfl, rfl, rfl, rfl, rfl⟩
  trans := AgentState.Withholds.trans
  heap := fun _ _ => ⟨rfl, rfl, rfl, rfl, rfl⟩
  captures := fun _ _ => ⟨rfl, rfl, rfl, rfl, rfl⟩
  emit := fun _ _ => ⟨rfl, rfl, rfl, rfl, rfl⟩
  capture := fun _ _ _ => ⟨rfl, rfl, rfl, rfl, rfl⟩
  attach := fun _ _ _ => ⟨rfl, rfl, rfl, rfl, rfl⟩
  report := fun _ _ => ⟨rfl, rfl, rfl, rfl, rfl⟩
  enter := fun _ _ _ => ⟨rfl, rfl, rfl, rfl, rfl⟩
  leave := fun _ _ _ => ⟨rfl, rfl, rfl, rfl, rfl⟩
  record := fun _ _ => ⟨rfl, rfl, rfl, rfl, rfl⟩

/-- Processing delivers nothing. -/
theorem withholds_process
    (c : Collaborators) (actions : List Action) (f : Firing) :
    f.agent.Withholds (f.process c actions).2.agent := by
  have hprep := admits_withholds.toPrepares
  have hspan : ∀ (tp : Tracepoint) (spanType : SpanType) (name : Option String),
      Acting.Within (fun f g => f.agent.Withholds g.agent)
        (Acting.processSpan c tp spanType name) := by
    intro tp spanType name
    refine Acting.within_get fun f => Acting.within_bind hprep
      (Acting.within_openSpans hprep
        (fun f processor request => ⟨rfl, rfl, rfl, rfl, f.agent.closed_openSpan processor request⟩)
        _ _) (fun handles => ?_) f
    split
    · exact Acting.within_pure hprep false
    · exact Acting.within_modify hprep (fun f => ⟨rfl, rfl, rfl, rfl, rfl⟩)
        (Acting.within_pure hprep true)
  exact Acting.admits_process admits_withholds c hspan actions f

/-- The handles of a result are those that it closes. -/
theorem handles_deliveries
    (context : UInt64) (r : ActionResult) :
    (r.deliveries context).flatMap Delivery.handles = r.handles := by
  cases r with
  | log tracepoint message => rfl
  | snapshot snapshot => rfl
  | metric tracepoint => rfl
  | span tracepoint handles location =>
      cases location with
      | some location => exact List.append_nil handles
      | none =>
          simp only [ActionResult.deliveries, ActionResult.handles, List.flatMap_map,
            Delivery.handles]
          exact List.flatMap_singleton' handles

/-- Each firing on record leaves one result of its kind, in the order of the actions, and the
close of the context delivers all of them in this order, whichever fail or panic. A further close
delivers nothing. -/
theorem firings_match_deliveries
    {event : TraceEvent} {frame : HostFrame} {matched actions : List Action} {s : AgentState}
    {f : Firing}
    (hbegin : begin? c event frame matched s = some f)
    (hkeys : (actions.map Action.key).Nodup)
    (hledger : ∀ a ∈ actions, a.key < s.ledger.next)
    (hcalm : ∀ handle, c.plugins.closePanics handle = false) :
    let g := (f.process c actions).2
    let closed := g.close c AgentState.deliverInside
    let recorded := actions.filter fun a =>
      (s.ledger.read a.key).count < (g.agent.ledger.read a.key).count
    (f.process c actions).1 = recorded.length ∧
      (∀ key, g.agent.ledger.read key =
        if key ∈ recorded.map Action.key then (s.ledger.read key).record f.context.ts
        else s.ledger.read key) ∧
      s.Withholds g.agent ∧
      (∃ deliveries : List (List Delivery),
        List.Forall₂ (Action.Owes c f.context) recorded deliveries ∧
          g.agent.Receives c deliveries.flatten closed.agent ∧
          ∃ opened, g.agent.opened = s.opened ++ opened ∧
            (deliveries.flatten.flatMap Delivery.handles).Sublist opened) ∧
      ∀ reentry, closed.close c reentry = closed := by
  intro g closed recorded
  have hagent : f.agent.ledger = s.ledger ∧ f.agent.opened = s.opened ∧
      s.Withholds f.agent ∧ f.context.state = .opened := by
    simp only [begin?, Option.map_eq_some_iff] at hbegin
    obtain ⟨_, _, rfl⟩ := hbegin
    exact ⟨rfl, rfl, ⟨rfl, rfl, rfl, rfl, rfl⟩, rfl⟩
  obtain ⟨hsame, hnone, hbegun, hstate⟩ := hagent
  rw [← hsame] at hledger
  have hrecorded : f.fired c actions = recorded := by
    rw [fired_eq_filter c hkeys hledger, hsame]
  have hread := read_process c hkeys hledger
  rw [hrecorded, hsame] at hread
  have hprocessed := opens_process c actions f
  obtain ⟨halike, new, hresults, hleaves⟩ := leaves_process c actions f
  rw [begin_results hbegin, List.nil_append] at hresults
  rw [hrecorded] at hleaves
  obtain ⟨now, hclosed⟩ := receives_close hcalm (f := g)
    (hprocessed.closing (by rw [hstate]; decide))
  rw [finishedResults_eq, hresults, List.flatMap_map, halike.id] at hclosed
  refine ⟨?_, hread, hbegun.trans (withholds_process c actions f), ⟨_, ?_, hclosed, ?_⟩,
    fun reentry => close_of_closed (state_close c _ g) c reentry⟩
  · rw [fst_process, hrecorded]
  · exact List.forall₂_map_right_iff.2 (hleaves.imp fun _ _ h => owes_finished h _ _ _ _)
  · obtain ⟨opened, more, hopened, hhandles, hsub⟩ := hprocessed.opened
    refine ⟨opened, by rw [hopened, hnone], ?_⟩
    have hmore : new.flatMap ActionResult.handles = more := by
      rw [handles, handles, hresults, begin_results hbegin, List.flatMap_nil, List.nil_append]
        at hhandles
      exact hhandles
    rw [← List.flatMap_def, List.flatMap_assoc]
    simp only [handles_deliveries, handles_finished]
    rw [← hmore] at hsub
    exact hsub

/-- Collaborators without success: expressions panic when they are evaluated, so do the push
service and the processor of metrics, and the logger fails first and panics later.  Of the
processors of spans one declines and the other opens. -/
def failingCollaborators : Collaborators :=
  { plainCollaborators with
    evaluate := fun _ _ _ => .panic
    push := .direct fun _ => .panicked
    logger := fun call => if call = 0 then .failed else .panicked
    plugins := .load [⟨true, true, fun _ _ => true⟩]
      [⟨true, true, fun _ => .declined, fun _ => false⟩,
        ⟨true, true, fun _ => .opened, fun _ => false⟩] }

/-- Actions of all kinds.  The condition of the second panics, and the last may not fire. -/
def mixedActions : List Action :=
  let action (condition : Option String) (config : ActionConfig) (limit : Int) (key : Nat) :
      Action :=
    ⟨"", ⟨"tp", "handler.py", 3, .empty, [], []⟩, condition, config, ⟨limit, 0, 0, 0⟩, key⟩
  [action none (.log "a") (-1) 0, action (some "x") (.log "b") (-1) 1, action none .snapshot (-1) 2,
    action none (.metric ⟨"m", [], .counter, none, none, none, none⟩) (-1) 3,
    action none (.span .line none) (-1) 4, action none (.log "c") (-1) 5,
    action none (.log "d") 0 6]

/-- A frame without locals. -/
def bareFrame : HostFrame :=
  ⟨⟨"/srv/app/handler.py", "handle", 3, 1, some [], none, false, none⟩, []⟩

/-- A state with a record for each of these actions. -/
def mixedState : AgentState :=
  { AgentState.initial .empty (.ofSize 1 1) with ledger := FireLedger.empty.extend 7 }

theorem firings_match_deliveries_failing :
    ∃ f : Firing, begin? failingCollaborators .line bareFrame mixedActions mixedState = some f ∧
      let g := (f.process failingCollaborators mixedActions).2
      let closed := g.close failingCollaborators AgentState.deliverInside
      (f.process failingCollaborators mixedActions).1 = 5 ∧
        closed.agent.journal.logs.toList.map LogRecord.message = ["[deep] a", "[deep] c"] ∧
        closed.agent.journal.snapshots.toList.map Snapshot.isOpen = [false] ∧
        closed.agent.held.map SpanHandle.processor = [1] ∧
        (∀ reentry, closed.close failingCollaborators reentry = closed) := by
  have hcalm : ∀ handle, failingCollaborators.plugins.closePanics handle = false := by
    intro handle
    simp [failingCollaborators, Plugins.closePanics, Plugins.load]
  have hbegin : begin? failingCollaborators .line bareFrame mixedActions mixedState = some _ := rfl
  refine ⟨_, hbegin, ?_, ?_, ?_, ?_,
    (firings_match_deliveries hbegin (by decide) (by decide) hcalm).2.2.2.2⟩
  · decide +kernel
  · decide +kernel
  · decide +kernel
  · decide +kernel

end Firing
end LiveProbe
