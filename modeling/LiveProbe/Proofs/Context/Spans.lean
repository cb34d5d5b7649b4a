import LiveProbe.Agent.Hook
import LiveProbe.Proofs.Context.Steps

/-!
# Whereabouts of spans

Spans on their way from the processors that open them to those who close them.

**Whereabouts.**  The journal tells which spans were opened and which were closed
(`AgentState.opened`, `AgentState.closed`); the callbacks that wait hold others
(`AgentState.held`).  A span is *recorded* once the action that asked for it has left it
among its results, and *lost* when nobody is left who would close it.

**Settlement.**  Where spans are owed or recorded, each of them is closed, held or lost
afterwards (`AgentState.Settles`).

**Results.**
* `opens_process`: processing records only spans that it opens.
* `settles_closeSpans`: a closing loses the spans behind the first that panics.
* `settles_close`: a context settles all that its actions recorded.
-/

namespace LiveProbe

/-! ### Whereabouts of spans -/

/-- The spans of a result. -/
def ActionResult.handles : ActionResult → List SpanHandle
  | .span _ handles _ => handles
  | _ => []

/-- The spans that a callback closes. -/
def DeferredCallback.handles (callback : DeferredCallback) : List SpanHandle :=
  match callback.payload with
  | .closeSpans handles => handles
  | .runActions _ => []

namespace SpanEvent

def opened? : SpanEvent → Option SpanHandle
  | .opened handle _ => some handle
  | .closed _ => none

def closed? : SpanEvent → Option SpanHandle
  | .opened .. => none
  | .closed handle => some handle

end SpanEvent

namespace AgentState

/-- The spans that were opened, in their order. -/
def opened (s : AgentState) : List SpanHandle :=
  s.journal.spans.toList.filterMap SpanEvent.opened?

/-- The spans whose closing was asked for. -/
def closed (s : AgentState) : List SpanHandle :=
  s.journal.spans.toList.filterMap SpanEvent.closed?

/-- The spans that wait to be closed. -/
def held (s : AgentState) : List SpanHandle :=
  s.callbacks.pending.flatMap DeferredCallback.handles

/-- Spans are numbered as they are opened. -/
def Numbered (s : AgentState) : Prop :=
  s.opened.map SpanHandle.serial = List.range s.spans

theorem opened_span
    (s : AgentState) (e : SpanEvent) :
    { s with journal := s.journal.span e }.opened = s.opened ++ e.opened?.toList := by
  cases e <;> simp [opened, Journal.span, SpanEvent.opened?]

theorem closed_span
    (s : AgentState) (e : SpanEvent) :
    { s with journal := s.journal.span e }.closed = s.closed ++ e.closed?.toList := by
  cases e <;> simp [closed, Journal.span, SpanEvent.closed?]

theorem opened_openSpan
    (s : AgentState) (processor : Nat) (request : SpanRequest) :
    (s.openSpan processor request).2.opened =
      s.opened ++ [(s.openSpan processor request).1] :=
  opened_span s (.opened (s.openSpan processor request).1 request)

theorem closed_openSpan
    (s : AgentState) (processor : Nat) (request : SpanRequest) :
    (s.openSpan processor request).2.closed = s.closed := by
  have hclosed := closed_span s (.opened (s.openSpan processor request).1 request)
  rw [SpanEvent.closed?, Option.toList_none, List.append_nil] at hclosed
  exact hclosed

theorem Numbered.openSpan
    {s : AgentState}
    (h : s.Numbered)
    (processor : Nat) (request : SpanRequest) :
    (s.openSpan processor request).2.Numbered := by
  have hspans : (s.openSpan processor request).2.spans = s.spans + 1 := rfl
  have hserial : (s.openSpan processor request).1.serial = s.spans := rfl
  unfold Numbered at h ⊢
  rw [opened_openSpan, List.map_append, h, hspans, List.range_succ, List.map_singleton, hserial]

end AgentState

/-! ### Opening -/

theorem Acting.run_openSpans_cons
    (request : SpanRequest) (p : SpanProcessor × Nat) (rest : List (SpanProcessor × Nat))
    (f : Firing) :
    (openSpans request (p :: rest)).run.run f =
      match p.1.answer request with
      | .declined => (openSpans request rest).run.run f
      | .panicked => (none, f)
      | .opened =>
          match (openSpans request rest).run.run
            { f with agent := (f.agent.openSpan p.2 request).2 } with
          | (some handles, g) => (some ((f.agent.openSpan p.2 request).1 :: handles), g)
          | (none, g) => (none, g) := by
  rw [openSpans]
  cases p.1.answer request with
  | declined => rfl
  | panicked => rfl
  | opened =>
      dsimp only
      change (openSpans request rest >>= fun handles =>
        pure ((f.agent.openSpan p.2 request).1 :: handles)).run.run
          { f with agent := (f.agent.openSpan p.2 request).2 } = _
      rw [run_bind]
      rcases (openSpans request rest).run.run _ with ⟨_ | handles, g⟩ <;> rfl

namespace Firing

/-- The spans among the results of a context. -/
def handles (f : Firing) : List SpanHandle := f.context.results.flatMap ActionResult.handles

/-- From one state to the next, spans are opened and some of them are recorded. -/
structure Opens (f g : Firing) : Prop where
  numbered : f.agent.Numbered → g.agent.Numbered
  opened : ∃ new more, g.agent.opened = f.agent.opened ++ new ∧
    g.handles = f.handles ++ more ∧ more.Sublist new
  closed : g.agent.closed = f.agent.closed
  held : g.agent.held = f.agent.held
  closing : f.context.state ≠ .closed → g.context.state ≠ .closed

/-- Changes apart from spans and results open nothing. -/
theorem opens_of_eq
    {f g : Firing}
    (hjournal : g.agent.journal.spans = f.agent.journal.spans)
    (hspans : g.agent.spans = f.agent.spans)
    (hcallbacks : g.agent.callbacks = f.agent.callbacks)
    (hhandles : g.handles = f.handles)
    (hclosing : f.context.state ≠ .closed → g.context.state ≠ .closed) :
    f.Opens g := by
  have hopened : g.agent.opened = f.agent.opened := by
    rw [AgentState.opened, hjournal, AgentState.opened]
  refine ⟨?_, ⟨[], [], ?_, ?_, List.Sublist.refl []⟩, ?_, ?_, hclosing⟩
  · unfold AgentState.Numbered
    rw [hopened, hspans]
    exact id
  · rw [hopened, List.append_nil]
  · rw [hhandles, List.append_nil]
  · rw [AgentState.closed, hjournal, AgentState.closed]
  · rw [AgentState.held, hcallbacks, AgentState.held]

theorem opens_refl
    (f : Firing) :
    f.Opens f :=
  opens_of_eq rfl rfl rfl rfl id

theorem Opens.trans
    {f g k : Firing}
    (h : f.Opens g)
    (h' : g.Opens k) :
    f.Opens k := by
  obtain ⟨new, more, hopened, hhandles, hsub⟩ := h.opened
  obtain ⟨new', more', hopened', hhandles', hsub'⟩ := h'.opened
  refine ⟨fun hf => h'.numbered (h.numbered hf), ⟨new ++ new', more ++ more', ?_, ?_, ?_⟩,
    h'.closed.trans h.closed, h'.held.trans h.held, fun hf => h'.closing (h.closing hf)⟩
  · rw [hopened', hopened, List.append_assoc]
  · rw [hhandles', hhandles, List.append_assoc]
  · exact hsub.append hsub'

theorem handles_leave
    (f : Firing) (r : ActionResult) :
    (f.leave r).handles = f.handles ++ r.handles := by
  simp [handles, leave]

/-- None of the small changes of processing opens a span. -/
theorem admits_opens :
    Acting.Admits Opens where
  refl := opens_refl
  trans := Opens.trans
  heap := fun _ _ => opens_of_eq rfl rfl rfl rfl id
  captures := fun _ _ => opens_of_eq rfl rfl rfl rfl id
  emit := fun _ _ => opens_of_eq rfl rfl rfl rfl id
  capture := fun _ _ _ => opens_of_eq rfl rfl rfl rfl id
  attach := fun _ _ _ => opens_of_eq rfl rfl rfl rfl id
  report := fun _ _ => opens_of_eq rfl rfl rfl rfl id
  enter := fun _ _ hstate => opens_of_eq rfl rfl rfl rfl fun _ => hstate
  record := fun _ _ => opens_of_eq rfl rfl rfl rfl id
  leave := by
    intro f r hr
    refine opens_of_eq rfl rfl rfl ?_ id
    rw [handles_leave]
    cases r with
    | span tracepoint handles location => exact absurd rfl hr
    | log tracepoint message => exact List.append_nil _
    | snapshot snapshot => exact List.append_nil _
    | metric tracepoint => exact List.append_nil _

theorem opens_openSpan
    (f : Firing) (processor : Nat) (request : SpanRequest) :
    f.Opens { f with agent := (f.agent.openSpan processor request).2 } := by
  refine ⟨fun hf => hf.openSpan processor request,
    ⟨[(f.agent.openSpan processor request).1], [], ?_, ?_, List.nil_sublist _⟩, ?_, rfl, id⟩
  · exact AgentState.opened_openSpan f.agent processor request
  · exact (List.append_nil _).symm
  · exact AgentState.closed_openSpan f.agent processor request

/-- What the processors that are asked in turn have opened before a panic stays open, but
is not recorded. -/
theorem opens_openSpans
    {request : SpanRequest} {processors : List (SpanProcessor × Nat)} {f g : Firing}
    {answer : Option (List SpanHandle)}
    (hrun : (Acting.openSpans request processors).run.run f = (answer, g)) :
    f.Opens g ∧ g.handles = f.handles ∧
      ∀ handles, answer = some handles → g.agent.opened = f.agent.opened ++ handles := by
  induction processors generalizing f g answer with
  | nil =>
      obtain ⟨rfl, rfl⟩ := Prod.mk.inj hrun
      refine ⟨f.opens_refl, rfl, fun handles hanswer => ?_⟩
      rw [← Option.some.inj hanswer, List.append_nil]
  | cons p rest ih =>
      rw [Acting.run_openSpans_cons] at hrun
      rcases hasked : p.1.answer request with _ | _ | _ <;> rw [hasked] at hrun
      · have hfirst := f.opens_openSpan p.2 request
        have hopened := AgentState.opened_openSpan f.agent p.2 request
        rcases hrest : (Acting.openSpans request rest).run.run
          { f with agent := (f.agent.openSpan p.2 request).2 } with ⟨_ | handles, k⟩ <;>
          rw [hrest] at hrun <;> obtain ⟨rfl, rfl⟩ := Prod.mk.inj hrun <;>
          obtain ⟨hopens, hhandles, hall⟩ := ih hrest
        · exact ⟨hfirst.trans hopens, hhandles, fun handles hnone => nomatch hnone⟩
        · refine ⟨hfirst.trans hopens, hhandles, fun others hothers => ?_⟩
          rw [← Option.some.inj hothers, hall handles rfl, hopened, List.append_assoc]
          rfl
      · exact ih hrun
      · obtain ⟨rfl, rfl⟩ := Prod.mk.inj hrun
        exact ⟨f.opens_refl, rfl, fun handles hnone => nomatch hnone⟩

/-- A span action records what it opens, unless a processor panics. -/
theorem opens_processSpan
    (c : Collaborators) (tp : Tracepoint) (spanType : SpanType) (name : Option String) :
    Acting.Within Opens (Acting.processSpan c tp spanType name) := by
  refine Acting.within_get fun f => ?_
  dsimp only
  rw [Acting.run_bind]
  rcases hrun : (Acting.openSpans _ c.plugins.activeSpans).run.run f with ⟨_ | handles, g⟩ <;>
    obtain ⟨hopens, hhandles, hall⟩ := opens_openSpans hrun
  · exact hopens
  · dsimp only
    split
    · exact hopens
    · -- The result records just what was opened for it.
      refine ⟨hopens.numbered, ⟨handles, handles, hall handles rfl, ?_, List.Sublist.refl _⟩,
        hopens.closed, hopens.held, hopens.closing⟩
      refine (handles_leave g _).trans ?_
      rw [hhandles]
      rfl

/-- Processing records handles that it opens, and closes none. -/
theorem opens_process
    (c : Collaborators) (actions : List Action) (f : Firing) :
    f.Opens (f.process c actions).2 :=
  Acting.admits_process admits_opens c (opens_processSpan c) actions f

end Firing

/-! ### Settlement -/

/-- What is recorded and what is lost in the course of something. -/
structure SpanFlow where
  recorded : List SpanHandle
  lost : List SpanHandle

namespace SpanFlow

def none : SpanFlow := ⟨[], []⟩

/-- One after the other. -/
def andThen (a b : SpanFlow) : SpanFlow := ⟨a.recorded ++ b.recorded, a.lost ++ b.lost⟩

end SpanFlow

/-- The spans behind the first whose closing panics. -/
def Collaborators.unclosed (c : Collaborators) : List SpanHandle → List SpanHandle
  | [] => []
  | handle :: rest => if c.plugins.closePanics handle then rest else c.unclosed rest

/-- The spans of a result that its delivery loses. -/
def ActionResult.unclosed (c : Collaborators) : ActionResult → List SpanHandle
  | .span _ handles Option.none => c.unclosed handles
  | _ => []

theorem Collaborators.unclosed_eq_nil
    {c : Collaborators} {handles : List SpanHandle}
    (hcalm : ∀ handle ∈ handles, c.plugins.closePanics handle = false) :
    c.unclosed handles = [] := by
  induction handles with
  | nil =>
      rfl
  | cons handle rest ih =>
      rw [unclosed, if_neg (by simp [hcalm handle List.mem_cons_self])]
      exact ih fun other hother => hcalm other (List.mem_cons_of_mem handle hother)

namespace AgentState

/-- Beside spans that were closed or held, some are owed.  With those that are recorded
all of them are closed, held or lost in the next state. -/
structure Settles (s : AgentState) (owed : List SpanHandle) (flow : SpanFlow) (s' : AgentState) :
    Prop where
  numbered : s.Numbered → s'.Numbered
  opened : ∃ new, s'.opened = s.opened ++ new ∧ flow.recorded.Sublist new
  balance : (s.closed ++ s.held ++ owed ++ flow.recorded).Perm (s'.closed ++ s'.held ++ flow.lost)

section Settles

variable {s t u : AgentState} {owed more : List SpanHandle} {flow later : SpanFlow}

/-- Each handle is accounted for: what was closed, held, owed or recorded is closed, held or lost.
-/
theorem Settles.count
    (h : s.Settles owed flow t)
    (x : SpanHandle) :
    s.closed.count x + s.held.count x + owed.count x + flow.recorded.count x =
      t.closed.count x + t.held.count x + flow.lost.count x := by
  simpa only [List.count_append] using h.balance.count_eq x

/-- Changes apart from spans and callbacks settle nothing. -/
theorem settles_of_eq
    (hjournal : t.journal.spans = s.journal.spans)
    (hspans : t.spans = s.spans)
    (hcallbacks : t.callbacks = s.callbacks) :
    s.Settles [] .none t := by
  have hopened : t.opened = s.opened := by
    rw [opened, hjournal, opened]
  have hclosed : t.closed = s.closed := by
    rw [closed, hjournal, closed]
  have hheld : t.held = s.held := by
    rw [held, hcallbacks, held]
  refine ⟨?_, ⟨[], ?_, List.Sublist.refl []⟩, ?_⟩
  · unfold Numbered
    rw [hopened, hspans]
    exact id
  · rw [hopened, List.append_nil]
  · rw [hclosed, hheld, List.append_nil]
    exact List.Perm.refl _

theorem settles_refl
    (s : AgentState) :
    s.Settles [] .none s :=
  settles_of_eq rfl rfl rfl

/-- Stretches of a run may be joined, with the flow of one after that of the other. -/
theorem Settles.trans
    (h : s.Settles owed flow t)
    (h' : t.Settles more later u) :
    s.Settles (owed ++ more) (flow.andThen later) u := by
  obtain ⟨new, hopened, hsub⟩ := h.opened
  obtain ⟨new', hopened', hsub'⟩ := h'.opened
  refine ⟨fun hs => h'.numbered (h.numbered hs), ⟨new ++ new', ?_, hsub.append hsub'⟩, ?_⟩
  · rw [hopened', hopened, List.append_assoc]
  · refine List.perm_iff_count.2 fun x => ?_
    have hfirst := h.count x
    have hsecond := h'.count x
    simp only [SpanFlow.andThen, List.count_append]
    omega

/-- What comes first and last moves no spans. -/
theorem Settles.within
    {r : AgentState}
    (h : s.Settles owed flow t)
    (hbefore : r.Settles [] .none s)
    (hafter : t.Settles [] .none u) :
    r.Settles owed flow u := by
  have hall := (hbefore.trans h).trans hafter
  simpa [SpanFlow.andThen, SpanFlow.none] using hall

end Settles

/-! ### Closing -/

variable (c : Collaborators)

/-- Handles that are owed are closed up to a panic, and the rest is lost. -/
theorem settles_closeSpans
    (handles : List SpanHandle) (s : AgentState) :
    s.Settles handles ⟨[], c.unclosed handles⟩ (closeSpans c handles s).2 := by
  induction handles generalizing s with
  | nil =>
      exact s.settles_refl
  | cons handle rest ih =>
      have hopened := s.opened_span (.closed handle)
      have hclosed := s.closed_span (.closed handle)
      rw [SpanEvent.opened?, Option.toList_none, List.append_nil] at hopened
      rw [SpanEvent.closed?, Option.toList_some] at hclosed
      have hfirst :
          s.Settles [handle] .none { s with journal := s.journal.span (.closed handle) } := by
        refine ⟨?_, ⟨[], ?_, List.Sublist.refl []⟩, ?_⟩
        · unfold Numbered
          rw [hopened]
          exact id
        · rw [hopened, List.append_nil]
        · refine List.perm_iff_count.2 fun x => ?_
          have hheld : { s with journal := s.journal.span (.closed handle) }.held = s.held := rfl
          rw [hclosed, hheld]
          simp only [SpanFlow.none, List.count_append, List.count_nil]
          omega
      unfold closeSpans Collaborators.unclosed
      dsimp only
      split
      · -- What comes behind it is owed still, and lost.
        refine ⟨hfirst.numbered, hfirst.opened, List.perm_iff_count.2 fun x => ?_⟩
        have hcount := hfirst.count x
        simp only [SpanFlow.none, List.count_append, List.count_cons, List.count_nil] at hcount ⊢
        omega
      · exact hfirst.trans (ih _)

theorem closeSpans_of_calm
    {handles : List SpanHandle}
    (hcalm : ∀ handle ∈ handles, c.plugins.closePanics handle = false)
    (s : AgentState) :
    (closeSpans c handles s).1 = true := by
  induction handles generalizing s with
  | nil =>
      rfl
  | cons handle rest ih =>
      unfold closeSpans
      rw [if_neg (by simp [hcalm handle List.mem_cons_self])]
      exact ih (fun other hother => hcalm other (List.mem_cons_of_mem handle hother)) _

/-! ### Delivery -/

theorem settles_react
    (reaction : Reaction) (s : AgentState) :
    s.Settles [] .none (s.react c deliverInside reaction).2 := by
  cases reaction <;> exact settles_of_eq rfl rfl rfl

theorem settles_reportDelivery
    (outcome : DeliveryOutcome) (s : AgentState) :
    s.Settles [] .none (s.reportDelivery outcome) := by
  cases outcome <;> exact settles_of_eq rfl rfl rfl

theorem settles_pushSnapshot
    (snapshot : Snapshot) (s : AgentState) :
    s.Settles [] .none (s.pushSnapshot c deliverInside snapshot).2 := by
  unfold pushSnapshot
  split
  · have hkept : s.Settles [] .none { s with journal := s.journal.keep snapshot } :=
      settles_of_eq rfl rfl rfl
    exact hkept.trans (settles_react c _ _)
  · split <;> exact settles_of_eq rfl rfl rfl

/-- The delivery of a result settles its handles: they are closed now, left for later or lost. -/
theorem settles_deliver
    (context : UInt64) (r : ActionResult) (s : AgentState) :
    s.Settles r.handles ⟨[], r.unclosed c⟩ (s.deliver c deliverInside context r).2 := by
  cases r with
  | log tracepoint message =>
      have hlogged :
          s.Settles [] .none { s with journal := s.journal.log ⟨message, tracepoint, context⟩ } :=
        settles_of_eq rfl rfl rfl
      exact hlogged.trans (settles_react c _ _)
  | snapshot snapshot =>
      exact settles_pushSnapshot c snapshot s
  | metric tracepoint =>
      exact s.settles_refl
  | span tracepoint handles location =>
      cases location with
      | some location =>
          refine ⟨id, ⟨[], (List.append_nil _).symm, List.Sublist.refl []⟩, ?_⟩
          have hheld : (s.deferClose location handles).held = s.held ++ handles := by
            simp [deferClose, held, CallbackRegistry.register, CallbackRegistry.ofPending,
              DeferredCallback.handles]
          have hclosed : (s.deferClose location handles).closed = s.closed := rfl
          simp only [deliver, hheld, hclosed, ActionResult.handles, ActionResult.unclosed,
            List.append_nil, List.append_assoc]
          exact List.Perm.refl _
      | none =>
          have hclose := settles_closeSpans c handles s
          unfold deliver
          dsimp only
          rcases hrun : closeSpans c handles s with ⟨_ | _, closed⟩ <;> rw [hrun] at hclose <;>
            exact hclose

theorem settles_deliverAll
    (context : UInt64) (results : List ActionResult) (s : AgentState) :
    s.Settles (results.flatMap ActionResult.handles) ⟨[], results.flatMap (ActionResult.unclosed c)⟩
      (s.deliverAll c deliverInside context results) := by
  induction results generalizing s with
  | nil =>
      exact s.settles_refl
  | cons r rest ih =>
      rw [List.flatMap_cons, List.flatMap_cons]
      have hfirst := (settles_deliver c context r s).within s.settles_refl
        (settles_reportDelivery (s.deliver c deliverInside context r).1 _)
      exact hfirst.trans (ih _)

end AgentState

/-! ### Contexts -/

namespace Firing

/-- What is added at the end leaves handles alone. -/
theorem flatMap_finishedResults
    {g : ActionResult → List SpanHandle}
    (hsnapshot : ∀ snapshot, g (.snapshot snapshot) = [])
    (x : TriggerContext) (now : Nat) :
    (finishedResults x now).flatMap g = x.results.flatMap g := by
  unfold finishedResults
  rw [List.flatMap_map]
  congr 1
  funext r
  cases r with
  | snapshot snapshot =>
      dsimp only
      rw [hsnapshot, hsnapshot]
  | log tracepoint message => rfl
  | metric tracepoint => rfl
  | span tracepoint handles location => rfl

/-- The end of a context settles all handles of its results. -/
theorem settles_close
    (c : Collaborators)
    {f : Firing}
    (hopen : f.context.state ≠ .closed) :
    f.agent.Settles f.handles ⟨[], f.context.results.flatMap (ActionResult.unclosed c)⟩
      (f.close c AgentState.deliverInside).agent := by
  unfold close
  rw [if_neg hopen]
  unfold deliverResults
  split
  · next hresults =>
      have hnone : f.context.results = [] := List.isEmpty_iff.1 hresults
      have hhandles : f.handles = [] := by
        rw [handles, hnone, List.flatMap_nil]
      rw [hhandles, hnone]
      exact f.agent.settles_refl
  · have hread : f.agent.Settles [] .none (f.agent.readClock c).2 :=
      AgentState.settles_of_eq rfl rfl rfl
    have hdelivered := hread.trans (AgentState.settles_deliverAll c f.context.id
      (finishedResults f.context (f.agent.readClock c).1) (f.agent.readClock c).2)
    rw [flatMap_finishedResults (fun _ => rfl), flatMap_finishedResults (fun _ => rfl)]
      at hdelivered
    exact hdelivered

end Firing

end LiveProbe
