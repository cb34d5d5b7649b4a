import LiveProbe.Proofs.Context.Results

/-!
# Work at an event

What the hook does at an event, one piece of work after the other.

**Specification.**  The work that an event calls for (`AgentState.workAt`): that of the
callbacks which wait for it, in their order; then the actions at the end of its line are left
for a later event; then the other actions of the triggers that are hit are handed to a
context.  What each piece of work makes of the agent is told by `AgentState.Does`.

**Trace.**  The contexts that begin, and the actions that each is handed, are noted along the
handling of the event (`AgentState.handedOn`).

**Results.**
* `achieves_dispatch`: at an event its work is done from the beginning, and all of it unless
  something panics; the contexts and the firings that are noted are those of the work done.
* `sublist_of_does`: what fires was handed to a context.
-/

namespace LiveProbe

/-- What a context was begun for, with the actions it was handed. -/
structure Handed where
  event : TraceEvent
  frame : HostFrame
  actions : List Action

namespace TriggerIndex

/-- The actions that an event leaves for the end of its line. -/
def lineEndActions (index : TriggerIndex) (event : TraceEvent) (frame : HostFrame) :
    List Action :=
  ((index.matching event frame.top.file frame.top.line frame.top.function).filter
    AgentState.isLineEnd).flatMap Trigger.actions

/-- The actions that an event runs at once. -/
def immediateActions (index : TriggerIndex) (event : TraceEvent) (frame : HostFrame) :
    List Action :=
  ((index.matching event frame.top.file frame.top.line frame.top.function).filter fun t =>
    !AgentState.isLineEnd t).flatMap Trigger.actions

/-- In a file without triggers an event has no actions. -/
theorem actions_of_hasFile
    {index : TriggerIndex} {frame : HostFrame}
    (hfile : index.hasFile frame.top.file = false)
    (event : TraceEvent) :
    index.lineEndActions event frame = [] ∧ index.immediateActions event frame = [] := by
  have hnone :
      index.matching event frame.top.file frame.top.line frame.top.function = [] := by
    by_contra hsome
    rw [TriggerIndex.hasFile_of_matching hsome] at hfile
    cases hfile
  simp [lineEndActions, immediateActions, hnone]

end TriggerIndex

namespace Firing

variable {c : Collaborators} {event : TraceEvent} {frame : HostFrame} {actions : List Action}

/-- Only locals that panic keep a context from beginning. -/
theorem begin?_eq_none_iff
    {s : AgentState} :
    begin? c event frame actions s = none ↔ frame.bindings? = none := by
  simp [begin?]

section Begin

variable {s : AgentState} {f : Firing} (hbegin : begin? c event frame actions s = some f)

include hbegin

theorem event_begin? : f.context.event = event := by
  simp only [begin?, Option.map_eq_some_iff] at hbegin
  obtain ⟨_, _, rfl⟩ := hbegin
  rfl

theorem frame_begin? : f.context.frame = frame := by
  simp only [begin?, Option.map_eq_some_iff] at hbegin
  obtain ⟨_, _, rfl⟩ := hbegin
  rfl

end Begin

end Firing

namespace AgentState

/-! ### Trace of an event -/

section Trace

variable (c : Collaborators) (event : TraceEvent) (frame : HostFrame)

/-- The context for a list of actions, unless asking for the locals panics. -/
def handedIn (actions : List Action) (s : AgentState) : List Handed :=
  match Firing.begin? c event frame actions s with
  | none => []
  | some f => [⟨f.context.event, f.context.frame, actions⟩]

/-- The contexts that a callback begins. -/
def handedBy (callback : DeferredCallback) (s : AgentState) : List Handed :=
  match callback.payload with
  | .closeSpans _ => []
  | .runActions actions => s.handedIn c event frame actions

/-- The contexts that callbacks begin, up to a panic. -/
def handedByAll : List DeferredCallback → AgentState → List Handed
  | [], _ => []
  | callback :: rest, s =>
      s.handedBy c event frame callback ++
        match s.runCallback c event frame callback.payload with
        | (true, s) => handedByAll rest s
        | (false, _) => []

/-- The contexts that begin for the triggers that are hit. -/
def handedAtHit (s : AgentState) : List Handed :=
  let actions := s.index.immediateActions event frame
  if actions.isEmpty then []
  else
    (s.deferActions frame (s.index.lineEndActions event frame)).handedIn c event frame actions

/-- The contexts that begin when an event is dispatched. -/
def handedInDispatch (s : AgentState) : List Handed :=
  let (taken, callbacks) := s.callbacks.takeMatching event frame
  let s := { s with callbacks := callbacks }
  s.handedByAll c event frame taken ++
    match s.runCallbacks c event frame taken with
    | (false, _) => []
    | (true, s) => if s.index.hasFile frame.top.file then s.handedAtHit c event frame else []

/-- The contexts that begin at an event, in their order. -/
def handedOn (s : AgentState) : List Handed :=
  match s.shortcut? event frame with
  | some _ => []
  | none => s.handedInDispatch c event frame

end Trace

/-! ### Work -/

/-- A piece of work: spans to be closed, actions to be left for the end of the line, or actions
to be handed to a context. -/
inductive Work
  | close (handles : List SpanHandle)
  | leave (actions : List Action)
  | hand (actions : List Action)

namespace Work

/-- The actions that the work hands to a context. -/
def handed? : Work → Option (List Action)
  | hand actions => some actions
  | _ => none

/-- The actions that the work leaves for the end of the line. -/
def left? : Work → Option (List Action)
  | leave actions => some actions
  | _ => none

/-- The work of a callback. -/
def ofPayload : CallbackPayload → Work
  | .closeSpans handles => close handles
  | .runActions actions => hand actions

end Work

/-- The work of the triggers that an event hits. -/
def workOfHits (index : TriggerIndex) (event : TraceEvent) (frame : HostFrame) : List Work :=
  .leave (index.lineEndActions event frame) ::
    ([index.immediateActions event frame].filter (!·.isEmpty)).map .hand

/-- The work that an event calls for. -/
def workAt (s : AgentState) (event : TraceEvent) (frame : HostFrame) : List Work :=
  (s.callbacks.takeMatching event frame).1.map (Work.ofPayload ·.payload) ++
    workOfHits s.index event frame

section Work

variable (c : Collaborators) (event : TraceEvent) (frame : HostFrame)

/-- From one state to the next work is done in turn, and actions fire.  Actions are handed to a
context that begins with them, processes them, and is closed. -/
inductive Does : List Work → List Action → AgentState → AgentState → Prop
  | nothing (s : AgentState) : Does [] [] s s
  | close
      {handles : List SpanHandle} {works : List Work} {fired : List Action} {s t : AgentState}
      (rest : Does works fired (s.closeSpans c handles).2 t) :
      Does (.close handles :: works) fired s t
  | leave
      {actions : List Action} {works : List Work} {fired : List Action} {s t : AgentState}
      (rest : Does works fired (s.deferActions frame actions) t) :
      Does (.leave actions :: works) fired s t
  | hand
      {actions : List Action} {works : List Work} {fired : List Action} {s t : AgentState}
      {f : Firing}
      (hbegin : Firing.begin? c event frame actions s = some f)
      (rest : Does works fired ((f.process c actions).2.close c deliverInside).agent t) :
      Does (.hand actions :: works) (f.fired c actions ++ fired) s t

/-- The contexts that the work begins. -/
def contextsOf (works : List Work) : List Handed :=
  (works.filterMap Work.handed?).map (Handed.mk event frame)

/-- Of planned work some is done, from its beginning, and all of it unless something panics.
Contexts and firings are those of the work that is done. -/
def Achieves (plan : List Work) (handed : List Handed) (fired : List Action) (s : AgentState)
    (outcome : Bool × AgentState) : Prop :=
  ∃ works, works <+: plan ∧ (outcome.1 = true → works = plan) ∧
    handed = contextsOf event frame works ∧ Does c event frame works fired s outcome.2

variable {c event frame} {works more plan later : List Work} {fired next : List Action}
  {handed others : List Handed} {s t u : AgentState} {outcome : Bool × AgentState}

theorem Does.append
    (h : Does c event frame works fired s t)
    (h' : Does c event frame more next t u) :
    Does c event frame (works ++ more) (fired ++ next) s u := by
  induction h with
  | nothing s => exact h'
  | close _ ih => exact .close (ih h')
  | leave _ ih => exact .leave (ih h')
  | hand hbegin _ ih =>
      rw [List.append_assoc]
      exact .hand hbegin (ih h')

/-- What fires was handed to a context. -/
theorem sublist_of_does
    (h : Does c event frame works fired s t) :
    fired.Sublist ((contextsOf event frame works).flatMap Handed.actions) := by
  unfold contextsOf
  induction h with
  | nothing s => exact List.Sublist.refl []
  | close _ ih => exact ih
  | leave _ ih => exact ih
  | hand hbegin _ ih => exact (Firing.sublist_fired c _ _).append ih

theorem achieves_nothing
    (s : AgentState) :
    Achieves c event frame [] [] [] s (true, s) :=
  ⟨[], List.prefix_rfl, fun _ => rfl, rfl, .nothing s⟩

/-- Once a plan is carried out, the next one begins. -/
theorem Achieves.trans
    (h : Achieves c event frame plan handed fired s (true, t))
    (h' : Achieves c event frame later others next t outcome) :
    Achieves c event frame (plan ++ later) (handed ++ others) (fired ++ next) s outcome := by
  obtain ⟨works, -, hall, rfl, hdoes⟩ := h
  obtain ⟨more, hsome, hrest, rfl, hnext⟩ := h'
  obtain rfl := hall rfl
  refine ⟨works ++ more, (List.prefix_append_right_inj works).2 hsome, ?_, ?_,
    hdoes.append hnext⟩
  · intro hcalm
    rw [hrest hcalm]
  · rw [contextsOf, contextsOf, contextsOf, List.filterMap_append, List.map_append]

/-- After a panic nothing more is done. -/
theorem Achieves.stop
    (h : Achieves c event frame plan handed fired s (false, t))
    (later : List Work) :
    Achieves c event frame (plan ++ later) handed fired s (false, t) := by
  obtain ⟨works, hsome, -, hhanded, hdoes⟩ := h
  exact ⟨works, hsome.trans (List.prefix_append plan later), nofun, hhanded, hdoes⟩

/-! ### Dispatch -/

variable (c event frame)

/-- A context carries out the work of handing on its actions, or panics before it begins. -/
theorem achieves_runActions
    (actions : List Action) (s : AgentState) :
    Achieves c event frame [.hand actions] (s.handedIn c event frame actions)
      (s.firedIn c event frame actions) s (s.runActions c event frame actions) := by
  unfold handedIn firedIn runActions
  cases hbegin : Firing.begin? c event frame actions s with
  | none => exact ⟨[], List.nil_prefix, nofun, rfl, .nothing s⟩
  | some f =>
      refine ⟨[.hand actions], List.prefix_rfl, fun _ => rfl, ?_, ?_⟩
      · dsimp only
        rw [Firing.event_begin? hbegin, Firing.frame_begin? hbegin]
        rfl
      · have hdoes := Does.hand hbegin (.nothing _)
        rwa [List.append_nil] at hdoes

/-- A callback carries out the work of its payload. -/
theorem achieves_runCallback
    (callback : DeferredCallback) (s : AgentState) :
    Achieves c event frame [.ofPayload callback.payload] (s.handedBy c event frame callback)
      (s.firedBy c event frame callback) s (s.runCallback c event frame callback.payload) := by
  unfold handedBy firedBy runCallback
  cases callback.payload with
  | closeSpans handles =>
      exact ⟨[.close handles], List.prefix_rfl, fun _ => rfl, rfl, .close (.nothing _)⟩
  | runActions actions => exact achieves_runActions c event frame actions s

/-- Callbacks carry out their work in order, up to a panic. -/
theorem achieves_runCallbacks
    (taken : List DeferredCallback) (s : AgentState) :
    Achieves c event frame (taken.map (Work.ofPayload ·.payload))
      (s.handedByAll c event frame taken) (s.firedByAll c event frame taken) s
      (s.runCallbacks c event frame taken) := by
  induction taken generalizing s with
  | nil => exact achieves_nothing s
  | cons callback rest ih =>
      have hfirst := achieves_runCallback c event frame callback s
      unfold handedByAll firedByAll runCallbacks
      rw [List.map_cons, ← List.singleton_append]
      rcases hrun : s.runCallback c event frame callback.payload with ⟨_ | _, t⟩ <;>
        rw [hrun] at hfirst
      · rw [List.append_nil, List.append_nil]
        exact hfirst.stop _
      · exact hfirst.trans (ih t)

/-- Leaving actions for the end of the line is one piece of work. -/
theorem achieves_deferActions
    (actions : List Action) (s : AgentState) :
    Achieves c event frame [.leave actions] [] [] s (true, s.deferActions frame actions) :=
  ⟨[.leave actions], List.prefix_rfl, fun _ => rfl, rfl, .leave (.nothing _)⟩

/-- First the actions for the end of the line are left, then the others are handed on. -/
theorem runMatching_eq
    (s : AgentState) :
    s.runMatching c event frame =
      if (s.index.immediateActions event frame).isEmpty then
        (true, s.deferActions frame (s.index.lineEndActions event frame))
      else
        (s.deferActions frame (s.index.lineEndActions event frame)).runActions c event frame
          (s.index.immediateActions event frame) := by
  simp only [runMatching, List.partition_eq_filter_filter]
  rfl

theorem firedAtHit_eq
    (s : AgentState) :
    s.firedAtHit c event frame =
      if (s.index.immediateActions event frame).isEmpty then []
      else
        (s.deferActions frame (s.index.lineEndActions event frame)).firedIn c event frame
          (s.index.immediateActions event frame) := by
  simp only [firedAtHit, List.partition_eq_filter_filter]
  rfl

/-- The triggers that an event hits carry out the work for it. -/
theorem achieves_runMatching
    (s : AgentState) :
    Achieves c event frame (workOfHits s.index event frame) (s.handedAtHit c event frame)
      (s.firedAtHit c event frame) s (s.runMatching c event frame) := by
  have hleft := achieves_deferActions c event frame (s.index.lineEndActions event frame) s
  rw [runMatching_eq, firedAtHit_eq, handedAtHit, workOfHits]
  cases hnone : (s.index.immediateActions event frame).isEmpty with
  | true => simpa [hnone] using hleft
  | false =>
      have hran := achieves_runActions c event frame (s.index.immediateActions event frame)
        (s.deferActions frame (s.index.lineEndActions event frame))
      simpa [hnone] using hleft.trans hran

/-- At an event its work is done from the beginning, and all of it unless something panics. -/
theorem achieves_dispatch
    (s : AgentState) :
    Achieves c event frame (s.workAt event frame) (s.handedInDispatch c event frame)
      (s.firedInDispatch c event frame)
      { s with callbacks := (s.callbacks.takeMatching event frame).2 }
      (s.dispatch c event frame) := by
  unfold workAt handedInDispatch firedInDispatch dispatch
  rcases s.callbacks.takeMatching event frame with ⟨taken, callbacks⟩
  have hcallbacks := achieves_runCallbacks c event frame taken { s with callbacks := callbacks }
  have hindex := (serves_runCallbacks c event frame taken { s with callbacks := callbacks }).index
  dsimp only at hindex ⊢
  rcases hrun : runCallbacks c event frame taken { s with callbacks := callbacks } with
    ⟨_ | _, t⟩ <;> rw [hrun] at hcallbacks hindex
  · rw [List.append_nil, List.append_nil]
    exact hcallbacks.stop _
  · -- The callbacks leave the index as it was, from which the rest of the work is read.
    have hsame : workOfHits s.index event frame = workOfHits t.index event frame :=
      congrArg (workOfHits · event frame) hindex.symm
    rw [hsame]
    refine hcallbacks.trans ?_
    dsimp only
    cases hfile : t.index.hasFile frame.top.file with
    | true => exact achieves_runMatching c event frame t
    | false =>
        obtain ⟨hlineEnd, himmediate⟩ := TriggerIndex.actions_of_hasFile hfile event
        rw [workOfHits, hlineEnd, himmediate]
        exact achieves_deferActions c event frame [] t

end Work

end AgentState
end LiveProbe
