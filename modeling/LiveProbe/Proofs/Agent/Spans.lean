import LiveProbe.Proofs.Context.Spans

/-!
# Spans at an event

What becomes of spans while an event is handled.

**Trace.**  What is recorded and what is lost is listed along the handling of the event
(`AgentState.flowOn`).  Spans are lost behind one whose closing panics, and with the
callbacks behind one that panics.

**Results.**
* `settles_traceCall`: at an event every span that was closed, held or recorded is closed,
  held or lost afterwards.
* `lost_flowOn`: nothing is lost where nothing panics.
-/

namespace LiveProbe

/-! ### Trace of an event -/

namespace AgentState

variable (c : Collaborators) (event : TraceEvent) (frame : HostFrame)

/-- What actions record and lose in a context of their own. -/
def flowIn (actions : List Action) (s : AgentState) : SpanFlow :=
  match Firing.begin? c event frame actions s with
  | none => .none
  | some f =>
      let g := (f.process c actions).2
      ⟨g.handles, g.context.results.flatMap (ActionResult.unclosed c)⟩

/-- What a callback records and loses. -/
def flowBy (callback : DeferredCallback) (s : AgentState) : SpanFlow :=
  match callback.payload with
  | .closeSpans handles => ⟨[], c.unclosed handles⟩
  | .runActions actions => s.flowIn c event frame actions

/-- What callbacks record and lose.  Behind one that panics the spans of all others are
lost. -/
def flowByAll : List DeferredCallback → AgentState → SpanFlow
  | [], _ => .none
  | callback :: rest, s =>
      (s.flowBy c event frame callback).andThen
        (match s.runCallback c event frame callback.payload with
        | (true, s) => flowByAll rest s
        | (false, _) => ⟨[], rest.flatMap DeferredCallback.handles⟩)

/-- What is recorded and lost at the triggers that are hit. -/
def flowAtHit (s : AgentState) : SpanFlow :=
  let hit := s.index.matching event frame.top.file frame.top.line frame.top.function
  let (waiting, immediate) := hit.partition isLineEnd
  let s := s.deferActions frame (waiting.flatMap Trigger.actions)
  let actions := immediate.flatMap Trigger.actions
  if actions.isEmpty then .none else s.flowIn c event frame actions

/-- What is recorded and lost when an event is dispatched. -/
def flowInDispatch (s : AgentState) : SpanFlow :=
  let (taken, callbacks) := s.callbacks.takeMatching event frame
  let s := { s with callbacks := callbacks }
  (s.flowByAll c event frame taken).andThen
    (match s.runCallbacks c event frame taken with
    | (false, _) => .none
    | (true, s) => if s.index.hasFile frame.top.file then s.flowAtHit c event frame else .none)

/-- What is recorded and lost at an event. -/
def flowOn (s : AgentState) : SpanFlow :=
  match s.shortcut? event frame with
  | some _ => .none
  | none => s.flowInDispatch c event frame

/-! ### Settlement of an event -/

/-- A context closes or leaves what it opened, apart from what a panic loses. -/
theorem settles_runActions
    (actions : List Action) (s : AgentState) :
    s.Settles [] (s.flowIn c event frame actions) (s.runActions c event frame actions).2 := by
  unfold flowIn runActions
  rcases hbegin : Firing.begin? c event frame actions s with _ | f
  · exact s.settles_refl
  · have hprocessed := f.opens_process c actions
    have hbegun : s.Settles [] .none f.agent ∧ f.handles = [] ∧ f.context.state ≠ .closed := by
      simp only [Firing.begin?, Option.map_eq_some_iff] at hbegin
      obtain ⟨_, _, rfl⟩ := hbegin
      exact ⟨settles_of_eq rfl rfl rfl, rfl, by simp⟩
    obtain ⟨hfirst, hnothing, hopen⟩ := hbegun
    dsimp only
    generalize (f.process c actions).2 = g at hprocessed ⊢
    have hclosed := Firing.settles_close c (hprocessed.closing hopen)
    obtain ⟨new, more, hopened, hhandles, hsub⟩ := hprocessed.opened
    rw [hnothing, List.nil_append] at hhandles
    obtain ⟨later, hlater, _⟩ := hclosed.opened
    -- The results owe what the actions recorded, and the end of the context settles it.
    have hcontext : f.agent.Settles []
        ⟨g.handles, g.context.results.flatMap (ActionResult.unclosed c)⟩
        (g.close c deliverInside).agent := by
      refine ⟨fun hf => hclosed.numbered (hprocessed.numbered hf), ⟨new ++ later, ?_, ?_⟩, ?_⟩
      · rw [hlater, hopened, List.append_assoc]
      · rw [hhandles]
        exact hsub.trans (List.sublist_append_left new later)
      · rw [List.append_nil, ← hprocessed.closed, ← hprocessed.held]
        have hbalance := hclosed.balance
        rwa [List.append_nil] at hbalance
    exact hcontext.within hfirst (settles_refl _)

theorem settles_runCallback
    (callback : DeferredCallback) (s : AgentState) :
    s.Settles callback.handles (s.flowBy c event frame callback)
      (s.runCallback c event frame callback.payload).2 := by
  unfold flowBy runCallback DeferredCallback.handles
  rcases callback.payload with handles | actions
  · exact settles_closeSpans c handles s
  · exact settles_runActions c event frame actions s

/-- Callbacks close the spans that they owe, up to a panic. -/
theorem settles_runCallbacks
    (taken : List DeferredCallback) (s : AgentState) :
    s.Settles (taken.flatMap DeferredCallback.handles) (s.flowByAll c event frame taken)
      (s.runCallbacks c event frame taken).2 := by
  induction taken generalizing s with
  | nil =>
      exact s.settles_refl
  | cons callback rest ih =>
      have hfirst := settles_runCallback c event frame callback s
      rw [List.flatMap_cons]
      unfold flowByAll runCallbacks
      rcases hrun : s.runCallback c event frame callback.payload with ⟨_ | _, t⟩ <;>
        rw [hrun] at hfirst
      · have hrest : t.Settles (rest.flatMap DeferredCallback.handles)
            ⟨[], rest.flatMap DeferredCallback.handles⟩ t := by
          refine ⟨id, ⟨[], (List.append_nil _).symm, List.Sublist.refl []⟩, ?_⟩
          rw [List.append_nil]
        exact hfirst.trans hrest
      · exact hfirst.trans (ih t)

theorem settles_deferActions
    (actions : List Action) (s : AgentState) :
    s.Settles [] .none (s.deferActions frame actions) := by
  unfold deferActions
  split
  · exact s.settles_refl
  · -- A callback that runs actions holds no spans.
    refine ⟨id, ⟨[], (List.append_nil _).symm, List.Sublist.refl []⟩, List.Perm.of_eq ?_⟩
    simp [SpanFlow.none, closed, held, CallbackRegistry.register, CallbackRegistry.ofPending,
      DeferredCallback.handles]

/-- The triggers that an event hits settle what they open. -/
theorem settles_runMatching
    (s : AgentState) :
    s.Settles [] (s.flowAtHit c event frame) (s.runMatching c event frame).2 := by
  unfold flowAtHit runMatching
  dsimp only
  rcases (s.index.matching event frame.top.file frame.top.line frame.top.function).partition
    isLineEnd with ⟨waiting, immediate⟩
  have hdefer := settles_deferActions frame (waiting.flatMap Trigger.actions) s
  dsimp only
  split
  · exact hdefer
  · exact (settles_runActions c event frame _ _).within hdefer (settles_refl _)

/-- What callbacks hold that are taken is owed by those who took them. -/
theorem count_held_takeMatching
    (s : AgentState) (x : SpanHandle) :
    s.held.count x =
      ((s.callbacks.takeMatching event frame).1.flatMap DeferredCallback.handles).count x +
        { s with callbacks := (s.callbacks.takeMatching event frame).2 }.held.count x := by
  unfold CallbackRegistry.takeMatching
  split
  · simp
  · rw [List.partition_eq_filter_filter, ← List.count_append]
    dsimp only [held, CallbackRegistry.ofPending]
    rw [← List.flatMap_append]
    refine List.Perm.count_eq (List.Perm.flatMap_right _ ?_) x
    exact (List.filter_append_perm _ _).symm

/-- An event settles what it takes from the registry and what it opens. -/
theorem settles_dispatch
    (s : AgentState) :
    s.Settles [] (s.flowInDispatch c event frame) (s.dispatch c event frame).2 := by
  have hheld := count_held_takeMatching event frame s
  unfold flowInDispatch dispatch
  rcases htake : s.callbacks.takeMatching event frame with ⟨taken, callbacks⟩
  rw [htake] at hheld
  have hcallbacks := settles_runCallbacks c event frame taken { s with callbacks := callbacks }
  have hran : s.Settles [] (flowByAll c event frame taken { s with callbacks := callbacks })
      (runCallbacks c event frame taken { s with callbacks := callbacks }).2 := by
    refine ⟨hcallbacks.numbered, hcallbacks.opened, List.perm_iff_count.2 fun x => ?_⟩
    have hcount := hcallbacks.count x
    have hclosed : { s with callbacks := callbacks }.closed = s.closed := rfl
    have htaken := hheld x
    rw [hclosed] at hcount
    dsimp only at htaken
    simp only [List.count_append, List.count_nil]
    omega
  dsimp only
  rcases hrun : runCallbacks c event frame taken { s with callbacks := callbacks } with
    ⟨_ | _, t⟩ <;> rw [hrun] at hran
  · exact hran.trans t.settles_refl
  · dsimp only
    split
    · exact hran.trans (settles_runMatching c event frame t)
    · exact hran.trans t.settles_refl

theorem settles_traceCall
    (s : AgentState) :
    s.Settles [] (s.flowOn c event frame) (s.traceCall c event frame).2 := by
  unfold flowOn traceCall
  rcases s.shortcut? event frame with _ | k
  · have hdispatch := settles_dispatch c event frame s
    dsimp only
    rcases hrun : s.dispatch c event frame with ⟨_ | _, t⟩ <;> rw [hrun] at hdispatch
    · exact hdispatch.within s.settles_refl (settles_of_eq rfl rfl rfl)
    · exact hdispatch
  · exact s.settles_refl

/-! ### Events without panics -/

section Calm

variable {c event frame}

theorem lost_flowIn
    {actions : List Action} {s : AgentState}
    (hlocals : frame.bindings?.isSome)
    (hcalm : ∀ handle ∈ (s.flowIn c event frame actions).recorded,
        c.plugins.closePanics handle = false) :
    (s.flowIn c event frame actions).lost = [] ∧ (s.runActions c event frame actions).1 = true := by
  unfold flowIn at hcalm ⊢
  unfold runActions
  rcases hbegin : Firing.begin? c event frame actions s with _ | f
  · simp only [Firing.begin?, Option.map_eq_none_iff] at hbegin
    rw [hbegin] at hlocals
    cases hlocals
  · rw [hbegin] at hcalm
    refine ⟨List.flatMap_eq_nil_iff.2 fun r hr => ?_, rfl⟩
    cases r with
    | span tracepoint handles location =>
        cases location with
        | none =>
            refine Collaborators.unclosed_eq_nil fun handle hhandle => hcalm handle ?_
            exact List.mem_flatMap.2 ⟨_, hr, hhandle⟩
        | some location => rfl
    | log tracepoint message => rfl
    | snapshot snapshot => rfl
    | metric tracepoint => rfl

theorem lost_flowBy
    {callback : DeferredCallback} {s : AgentState}
    (hlocals : frame.bindings?.isSome)
    (howed : ∀ handle ∈ callback.handles, c.plugins.closePanics handle = false)
    (hcalm : ∀ handle ∈ (s.flowBy c event frame callback).recorded,
        c.plugins.closePanics handle = false) :
    (s.flowBy c event frame callback).lost = [] ∧
      (s.runCallback c event frame callback.payload).1 = true := by
  unfold DeferredCallback.handles at howed
  unfold flowBy at hcalm ⊢
  unfold runCallback
  rcases hpayload : callback.payload with handles | actions <;> rw [hpayload] at howed hcalm
  · exact ⟨Collaborators.unclosed_eq_nil howed, closeSpans_of_calm c howed s⟩
  · exact lost_flowIn hlocals hcalm

theorem lost_flowByAll
    {taken : List DeferredCallback} {s : AgentState}
    (hlocals : frame.bindings?.isSome)
    (howed : ∀ handle ∈ taken.flatMap DeferredCallback.handles,
        c.plugins.closePanics handle = false)
    (hcalm : ∀ handle ∈ (s.flowByAll c event frame taken).recorded,
        c.plugins.closePanics handle = false) :
    (s.flowByAll c event frame taken).lost = [] ∧
      (s.runCallbacks c event frame taken).1 = true := by
  induction taken generalizing s with
  | nil =>
      exact ⟨rfl, rfl⟩
  | cons callback rest ih =>
      rw [List.flatMap_cons] at howed
      unfold flowByAll at hcalm ⊢
      unfold runCallbacks
      obtain ⟨hlost, hran⟩ := lost_flowBy hlocals
        (fun handle hmem => howed handle (List.mem_append_left _ hmem))
        (fun handle hmem => hcalm handle (List.mem_append_left _ hmem))
      rcases hrun : s.runCallback c event frame callback.payload with ⟨_ | _, t⟩ <;>
        rw [hrun] at hran hcalm
      · cases hran
      · obtain ⟨hnone, hall⟩ := ih (s := t)
          (fun handle hmem => howed handle (List.mem_append_right _ hmem))
          (fun handle hmem => hcalm handle (List.mem_append_right _ hmem))
        refine ⟨?_, hall⟩
        dsimp only [SpanFlow.andThen]
        rw [hlost, hnone, List.append_nil]

theorem lost_flowAtHit
    {s : AgentState}
    (hlocals : frame.bindings?.isSome)
    (hcalm : ∀ handle ∈ (s.flowAtHit c event frame).recorded,
        c.plugins.closePanics handle = false) :
    (s.flowAtHit c event frame).lost = [] := by
  unfold flowAtHit at hcalm ⊢
  dsimp only at hcalm ⊢
  split
  · rfl
  · next hactions =>
      rw [if_neg hactions] at hcalm
      exact (lost_flowIn hlocals hcalm).1

theorem lost_flowInDispatch
    {s : AgentState}
    (hlocals : frame.bindings?.isSome)
    (hheld : ∀ handle ∈ s.held, c.plugins.closePanics handle = false)
    (hcalm : ∀ handle ∈ (s.flowInDispatch c event frame).recorded,
        c.plugins.closePanics handle = false) :
    (s.flowInDispatch c event frame).lost = [] := by
  have howed : ∀ handle ∈
      (s.callbacks.takeMatching event frame).1.flatMap DeferredCallback.handles,
      c.plugins.closePanics handle = false := by
    intro handle hmem
    refine hheld handle (List.count_pos_iff.1 ?_)
    have hcount := List.count_pos_iff.2 hmem
    have hsplit := count_held_takeMatching event frame s handle
    omega
  unfold flowInDispatch at hcalm ⊢
  rcases htake : s.callbacks.takeMatching event frame with ⟨taken, callbacks⟩
  rw [htake] at hcalm howed
  dsimp only [SpanFlow.andThen] at hcalm howed ⊢
  obtain ⟨hlost, hran⟩ := lost_flowByAll hlocals howed fun handle hmem =>
    hcalm handle (List.mem_append_left _ hmem)
  rcases hrun : runCallbacks c event frame taken { s with callbacks := callbacks } with
    ⟨_ | _, t⟩ <;> rw [hrun] at hran hcalm
  · cases hran
  · rw [hlost, List.nil_append]
    dsimp only at hcalm ⊢
    split
    · next hfile =>
        rw [if_pos hfile] at hcalm
        exact lost_flowAtHit hlocals fun handle hmem => hcalm handle (List.mem_append_right _ hmem)
    · rfl

theorem lost_flowOn
    {s : AgentState}
    (hlocals : frame.bindings?.isSome)
    (hheld : ∀ handle ∈ s.held, c.plugins.closePanics handle = false)
    (hcalm : ∀ handle ∈ (s.flowOn c event frame).recorded, c.plugins.closePanics handle = false) :
    (s.flowOn c event frame).lost = [] := by
  unfold flowOn at hcalm ⊢
  rcases hshort : s.shortcut? event frame with _ | k <;> rw [hshort] at hcalm
  · exact lost_flowInDispatch hlocals hheld hcalm
  · rfl

end Calm

end AgentState
end LiveProbe
