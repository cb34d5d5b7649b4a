import LiveProbe.Proofs.Agent.Handing
import LiveProbe.Proofs.Lists

/-!
# Ends of lines

When the actions at the end of a line run.

**Specification.**  An event may leave actions for the end of its line
(`AgentState.lineEndAt`).  They are due at the first later event by which the same activation
moves on or is left (`HookStep.nextMove`), and never if there is none.

**Invariant.**  The callbacks that will run actions are, in order, those of the events that
left some and whose activation has not moved on since (`AgentState.Awaits`).

**Results.**
* `does_of_calm`: where nothing panics, an event does all of its work.
* `handed_workAt`, `left_workAt`: that work hands on what waited for the event, then its own
  actions, and leaves those for the end of its line.
* `awaits_before`: the invariant holds before every step of a run.
* `line_ends_handed_once`: from before each event to after it just the actions that are due are
  handed to contexts, and then those that run at once.
-/

namespace LiveProbe

/-! ### Moves of an activation -/

/-- The frames are of one activation. -/
def HostFrame.isSameActivation (f g : HostFrame) : Bool :=
  f.top.identity == g.top.identity && f.top.function == g.top.function && f.top.file == g.top.file

/-- The activation of an event comes to a line, returns or raises. -/
def TraceEvent.isMove (event : TraceEvent) : Bool := event == .line || event.isExit

namespace HookStep

/-- By the second step the activation of the first moves on or is left. -/
def movesOn (step later : HookStep) : Bool :=
  match step, later with
  | .event _ _ frame, .event _ kind next => kind.isMove && frame.isSameActivation next
  | _, _ => false

/-- The same for steps at their places in a run. -/
def movesOnAt (steps : List HookStep) (i j : Nat) : Bool :=
  match steps[i]?, steps[j]? with
  | some step, some later => step.movesOn later
  | _, _ => false

/-- The first step by which the activation of an earlier one moves on or is left. -/
def nextMove (steps : List HookStep) (i : Nat) : Option Nat :=
  (List.range steps.length).find? fun j => decide (i < j) && movesOnAt steps i j

section NextMove

variable {steps : List HookStep} {i j : Nat}

theorem lt_length_of_movesOnAt
    (h : movesOnAt steps i j = true) :
    j < steps.length := by
  by_contra hlength
  have hnone : steps[j]? = none := List.getElem?_eq_none (by omega)
  rw [movesOnAt, hnone] at h
  cases hi : steps[i]? <;> simp [hi] at h

/-- The next move is the first later step at which the activation moves on. -/
theorem nextMove_eq_some_iff :
    nextMove steps i = some j ↔
      i < j ∧ movesOnAt steps i j = true ∧
        ∀ k, i < k → k < j → movesOnAt steps i k = false := by
  rw [nextMove, List.find?_range_eq_some]
  simp only [Bool.and_eq_true, decide_eq_true_eq, List.mem_range, Bool.not_eq_true',
    Bool.and_eq_false_imp]
  constructor
  · rintro ⟨⟨hlt, hmoves⟩, -, hfirst⟩
    exact ⟨hlt, hmoves, fun k hik hkj => hfirst k hkj hik⟩
  · rintro ⟨hlt, hmoves, hfirst⟩
    exact ⟨⟨hlt, hmoves⟩, lt_length_of_movesOnAt hmoves, fun k hkj hik => hfirst k hik hkj⟩

/-- There is none if the activation stays to the end of the run. -/
theorem nextMove_eq_none_iff :
    nextMove steps i = none ↔ ∀ j, i < j → movesOnAt steps i j = false := by
  rw [nextMove, List.find?_range_eq_none]
  simp only [Bool.not_eq_true', Bool.and_eq_false_imp, decide_eq_true_eq]
  constructor
  · intro hnone j hij
    rw [← Bool.not_eq_true]
    intro hmoves
    have hnot := hnone j (lt_length_of_movesOnAt hmoves) hij
    rw [hmoves] at hnot
    cases hnot
  · exact fun hnone j _ hij => hnone j hij

/-- Where an activation has not moved on before, it does so now if this is its next move. -/
theorem movesOnAt_eq_decide
    (hij : i < j)
    (hbefore : (nextMove steps i).all (j ≤ ·) = true) :
    movesOnAt steps i j = decide (nextMove steps i = some j) := by
  cases hnext : nextMove steps i with
  | none => simpa using nextMove_eq_none_iff.1 hnext j hij
  | some k =>
      obtain ⟨hik, hmoves, hfirst⟩ := nextMove_eq_some_iff.1 hnext
      rw [hnext, Option.all_some, decide_eq_true_eq] at hbefore
      rcases Nat.lt_or_eq_of_le hbefore with hlt | rfl
      · simpa [hfirst j hij hlt] using Nat.ne_of_gt hlt
      · simpa using hmoves

end NextMove

end HookStep

namespace AgentState

/-! ### Work without panics -/

section Calm

variable {c : Collaborators} {frame : HostFrame}
  (hcalm : ∀ handle, c.plugins.closePanics handle = false)
  (hlocals : frame.bindings?.isSome)
  (event : TraceEvent)

include hlocals in
/-- With locals, no actions panic out of their context. -/
theorem runActions_of_calm
    (actions : List Action) (s : AgentState) :
    (s.runActions c event frame actions).1 = true := by
  unfold runActions
  cases hbegin : Firing.begin? c event frame actions s with
  | none =>
      rw [Firing.begin?_eq_none_iff.1 hbegin] at hlocals
      cases hlocals
  | some f => rfl

include hcalm hlocals in
theorem runCallbacks_of_calm
    (taken : List DeferredCallback) (s : AgentState) :
    (s.runCallbacks c event frame taken).1 = true := by
  induction taken generalizing s with
  | nil => rfl
  | cons callback rest ih =>
      have hfirst : (s.runCallback c event frame callback.payload).1 = true := by
        unfold runCallback
        cases callback.payload with
        | closeSpans handles => exact closeSpans_of_calm c (fun h _ => hcalm h) s
        | runActions actions => exact runActions_of_calm hlocals event actions s
      unfold runCallbacks
      rcases hrun : s.runCallback c event frame callback.payload with ⟨_ | _, t⟩ <;>
        rw [hrun] at hfirst
      · cases hfirst
      · exact ih t

include hcalm hlocals in
theorem dispatch_of_calm
    (s : AgentState) :
    (s.dispatch c event frame).1 = true := by
  unfold dispatch
  rcases s.callbacks.takeMatching event frame with ⟨taken, callbacks⟩
  have hran := runCallbacks_of_calm hcalm hlocals event taken { s with callbacks := callbacks }
  dsimp only
  rcases hrun : runCallbacks c event frame taken { s with callbacks := callbacks } with
    ⟨_ | _, t⟩ <;> rw [hrun] at hran
  · cases hran
  · dsimp only
    split
    · rw [runMatching_eq]
      split
      · rfl
      · exact runActions_of_calm hlocals event _ _
    · rfl

include hcalm hlocals in
/-- Where nothing panics, an event does all of its work. -/
theorem does_of_calm
    (s : AgentState) :
    s.handedInDispatch c event frame = contextsOf event frame (s.workAt event frame) ∧
      Does c event frame (s.workAt event frame) (s.firedInDispatch c event frame)
        { s with callbacks := (s.callbacks.takeMatching event frame).2 }
        (s.dispatched c event frame) := by
  obtain ⟨works, -, hall, hhanded, hdoes⟩ := achieves_dispatch c event frame s
  have hcalm : (s.dispatch c event frame).1 = true := dispatch_of_calm hcalm hlocals event s
  obtain rfl := hall hcalm
  refine ⟨hhanded, ?_⟩
  unfold dispatched
  rcases hrun : s.dispatch c event frame with ⟨_ | _, t⟩ <;> rw [hrun] at hcalm hdoes
  · cases hcalm
  · exact hdoes

end Calm

/-- An event hands on what waited for it, then what it runs at once. -/
theorem handed_workAt
    {s : AgentState}
    (hcounted : s.callbacks.IsCounted)
    (event : TraceEvent) (frame : HostFrame) :
    let isDue := fun callback : DeferredCallback => callback.location.matches event frame
    (s.workAt event frame).filterMap Work.handed? =
      ((s.callbacks.pending.filter isDue).filterMap DeferredCallback.deferred?).map Prod.snd ++
        [s.index.immediateActions event frame].filter (!·.isEmpty) := by
  intro isDue
  have hcallback : ∀ callback : DeferredCallback,
      (Work.ofPayload callback.payload).handed? = callback.deferred?.map Prod.snd := by
    intro callback
    unfold DeferredCallback.deferred?
    cases callback.payload <;> rfl
  have hhand : ∀ l : List (List Action), (l.map Work.hand).filterMap Work.handed? = l := by
    intro l
    rw [List.filterMap_map]
    exact List.filterMap_some
  rw [workAt, workOfHits, List.filterMap_append,
    (CallbackRegistry.takeMatching_of_isCounted hcounted event frame).1, List.filterMap_map,
    List.map_filterMap, List.filterMap_cons_none rfl, hhand]
  exact congrArg (· ++ _) (List.filterMap_congr fun callback _ => hcallback callback)

/-- An event leaves for the end of its line what its triggers say. -/
theorem left_workAt
    (s : AgentState) (event : TraceEvent) (frame : HostFrame) :
    (s.workAt event frame).filterMap Work.left? = [s.index.lineEndActions event frame] := by
  have hcallbacks : ∀ taken : List DeferredCallback,
      (taken.map (Work.ofPayload ·.payload)).filterMap Work.left? = [] := by
    intro taken
    rw [List.filterMap_map, List.filterMap_eq_nil_iff]
    intro callback _
    rw [Function.comp_apply]
    cases callback.payload <;> rfl
  have hhand : ∀ l : List (List Action), (l.map Work.hand).filterMap Work.left? = [] := by
    intro l
    rw [List.filterMap_map]
    exact List.filterMap_eq_nil_iff.2 fun _ _ => rfl
  rw [workAt, workOfHits, List.filterMap_append, hcallbacks, List.nil_append]
  exact congrArg (s.index.lineEndActions event frame :: ·) (hhand _)

/-! ### Runs -/

section Run

variable (c : Collaborators) (s : AgentState) (steps : List HookStep)

/-- The agent before a step of a run. -/
def before (n : Nat) : AgentState := (steps.take n).foldl (after c) s

/-- The actions that the event at this place leaves for the end of its line. -/
def lineEndAt (i : Nat) : List Action :=
  match steps[i]? with
  | some (.event _ event frame) => (before c s steps i).index.lineEndActions event frame
  | _ => []

/-- The callback that the event at this place leaves for the end of its line. -/
def deferralAt (i : Nat) : List (CallbackLocation × List Action) :=
  match steps[i]? with
  | some (.event _ _ frame) => deferrals frame (lineEndAt c s steps i)
  | _ => []

/-- The actions that will run are those of events whose activation has not moved on before
step `n`. -/
structure Awaits (n : Nat) : Prop where
  enabled : (before c s steps n).enabled = true
  counted : (before c s steps n).callbacks.IsCounted
  deferred : (before c s steps n).callbacks.pending.filterMap DeferredCallback.deferred? =
    ((List.range n).filter fun i => (HookStep.nextMove steps i).all (n ≤ ·)).flatMap
      (deferralAt c s steps)

variable {c s steps}

/-- The state before a step is the one after the step before it. -/
theorem before_succ
    {n : Nat} {step : HookStep}
    (hstep : steps[n]? = some step) :
    before c s steps (n + 1) = (before c s steps n).after c step := by
  rw [before, List.take_add_one, hstep, List.foldl_append]
  rfl

/-- The callbacks of events run what these leave, where they leave anything. -/
theorem map_snd_deferrals
    (l : List Nat) :
    (l.flatMap (deferralAt c s steps)).map Prod.snd =
      (l.map (lineEndAt c s steps)).filter (!·.isEmpty) := by
  have hone : ∀ i, (deferralAt c s steps i).map Prod.snd =
      [lineEndAt c s steps i].filter (!·.isEmpty) := by
    intro i
    unfold deferralAt
    split
    · unfold deferrals
      split
      · next hempty => simp [hempty]
      · next hsome => simp [hsome]
    · next hother =>
        have hnothing : lineEndAt c s steps i = [] := by
          unfold lineEndAt
          split
          · next hevent => exact (hother _ _ _ hevent).elim
          · rfl
        simp [hnothing]
  induction l with
  | nil => rfl
  | cons i l ih =>
      rw [List.flatMap_cons, List.map_append, hone, ih, ← List.filter_append]
      rfl

/-- A callback is taken by the steps that move its activation on. -/
theorem matches_deferralAt
    {i n : Nat} {heap : Heap} {event : TraceEvent} {frame : HostFrame}
    (hn : steps[n]? = some (.event heap event frame))
    {waiting : CallbackLocation × List Action}
    (hwaiting : waiting ∈ deferralAt c s steps i) :
    waiting.1.matches event frame = HookStep.movesOnAt steps i n := by
  unfold deferralAt at hwaiting
  split at hwaiting
  · next first hstep =>
      unfold deferrals at hwaiting
      split at hwaiting
      · cases hwaiting
      · rw [List.mem_singleton.1 hwaiting, HookStep.movesOnAt, hstep, hn]
        exact Bool.and_comm _ _
  · cases hwaiting

/-- A choice by location is the same for callbacks and for what they will run. -/
theorem filterMap_deferred_filter
    (p : CallbackLocation → Bool) (pending : List DeferredCallback) :
    (pending.filter fun callback => p callback.location).filterMap DeferredCallback.deferred? =
      (pending.filterMap DeferredCallback.deferred?).filter fun waiting => p waiting.1 := by
  rw [List.filterMap_filter, List.filter_filterMap]
  congr 1
  funext callback
  unfold DeferredCallback.deferred?
  cases callback.payload with
  | closeSpans handles => simp
  | runActions actions => rfl

/-- Of what waits before an event, that event is due to run what it moves on. -/
theorem Awaits.due
    {n : Nat}
    (h : Awaits c s steps n)
    {heap : Heap} {event : TraceEvent} {frame : HostFrame}
    (hn : steps[n]? = some (.event heap event frame)) :
    let isDue := fun callback : DeferredCallback => callback.location.matches event frame
    let pending := (before c s steps n).callbacks.pending
    (pending.filter isDue).filterMap DeferredCallback.deferred? =
        ((List.range n).filter fun i => HookStep.nextMove steps i = some n).flatMap
          (deferralAt c s steps) ∧
      (pending.filter (!isDue ·)).filterMap DeferredCallback.deferred? =
        ((List.range n).filter fun i => (HookStep.nextMove steps i).all (n + 1 ≤ ·)).flatMap
          (deferralAt c s steps) := by
  intro isDue pending
  have hmatches : ∀ i ∈ (List.range n).filter (fun i => (HookStep.nextMove steps i).all (n ≤ ·)),
      ∀ waiting ∈ deferralAt c s steps i,
        waiting.1.matches event frame = decide (HookStep.nextMove steps i = some n) := by
    intro i hi waiting hwaiting
    obtain ⟨hlt, hbefore⟩ := List.mem_filter.1 hi
    rw [matches_deferralAt hn hwaiting]
    exact HookStep.movesOnAt_eq_decide (List.mem_range.1 hlt) hbefore
  refine ⟨?_, ?_⟩
  · rw [filterMap_deferred_filter (fun location => location.matches event frame), h.deferred,
      List.filter_flatMap_of_forall hmatches, List.filter_filter]
    congr 1
    refine List.filter_congr fun i _ => ?_
    cases hnext : HookStep.nextMove steps i with
    | none => simp
    | some k =>
        rw [Option.all_some, Bool.eq_iff_iff]
        simp only [Option.some.injEq, Bool.and_eq_true, decide_eq_true_eq]
        omega
  · have hothers := fun i hi waiting hwaiting =>
      congrArg (! ·) (hmatches i hi waiting hwaiting)
    rw [filterMap_deferred_filter (fun location => !location.matches event frame), h.deferred,
      List.filter_flatMap_of_forall hothers, List.filter_filter]
    congr 1
    refine List.filter_congr fun i _ => ?_
    cases hnext : HookStep.nextMove steps i with
    | none => simp
    | some k =>
        rw [Option.all_some, Option.all_some, Bool.eq_iff_iff]
        simp only [Option.some.injEq, Bool.and_eq_true, Bool.not_eq_true', decide_eq_true_eq,
          decide_eq_false_iff_not]
        omega

/-- What waits after one more step is what waits still, and what the step leaves. -/
theorem flatMap_deferralAt_succ
    (n : Nat) :
    ((List.range (n + 1)).filter fun i =>
        (HookStep.nextMove steps i).all (n + 1 ≤ ·)).flatMap (deferralAt c s steps) =
      ((List.range n).filter fun i =>
        (HookStep.nextMove steps i).all (n + 1 ≤ ·)).flatMap (deferralAt c s steps) ++
        deferralAt c s steps n := by
  have hlater : [n].filter (fun i => (HookStep.nextMove steps i).all (n + 1 ≤ ·)) = [n] := by
    rw [List.filter_eq_self, List.forall_mem_singleton]
    cases hnext : HookStep.nextMove steps n with
    | none => rfl
    | some k =>
        rw [Option.all_some, decide_eq_true_iff]
        exact (HookStep.nextMove_eq_some_iff.1 hnext).1
  rw [List.range_succ, List.filter_append, List.flatMap_append, hlater, List.flatMap_singleton]

/-- An update moves no activation on, and leaves nothing to be run. -/
theorem Awaits.update
    {n : Nat}
    (h : Awaits c s steps n)
    {tps : List Tracepoint}
    (hn : steps[n]? = some (.update tps)) :
    Awaits c s steps (n + 1) := by
  obtain ⟨henabled, hcounted⟩ := counted_after c h.enabled h.counted (.update tps)
  rw [← before_succ hn] at henabled hcounted
  refine ⟨henabled, hcounted, ?_⟩
  have hnothing : deferralAt c s steps n = [] := by rw [deferralAt, hn]
  have hsame : ∀ i ∈ List.range n, (HookStep.nextMove steps i).all (n ≤ ·) =
      (HookStep.nextMove steps i).all (n + 1 ≤ ·) := by
    intro i _
    cases hnext : HookStep.nextMove steps i with
    | none => rfl
    | some k =>
        have hne : k ≠ n := by
          rintro rfl
          have hmoves := (HookStep.nextMove_eq_some_iff.1 hnext).2.1
          rw [HookStep.movesOnAt, hn] at hmoves
          cases hi : steps[i]? with
          | none => simp [hi] at hmoves
          | some step => cases step <;> simp [hi, HookStep.movesOn] at hmoves
        rw [Option.all_some, Option.all_some, Bool.eq_iff_iff, decide_eq_true_iff,
          decide_eq_true_iff]
        omega
  rw [flatMap_deferralAt_succ, hnothing, List.append_nil, ← List.filter_congr hsame, ← h.deferred,
    before_succ hn, after, (newConfig_callbacks tps _).1]

/-- An event runs what is due and leaves what is to run at the end of its line. -/
theorem Awaits.event
    (hcalm : ∀ handle, c.plugins.closePanics handle = false)
    {n : Nat}
    (h : Awaits c s steps n)
    {heap : Heap} {event : TraceEvent} {frame : HostFrame}
    (hn : steps[n]? = some (.event heap event frame))
    (hlocals : frame.bindings?.isSome) :
    Awaits c s steps (n + 1) := by
  obtain ⟨henabled, hcounted⟩ := counted_after c h.enabled h.counted (.event heap event frame)
  rw [← before_succ hn] at henabled hcounted
  refine ⟨henabled, hcounted, ?_⟩
  have hregisters := registers_of_does
    (does_of_calm hcalm hlocals event { before c s steps n with heap := heap }).2
  rw [left_workAt, List.flatMap_singleton] at hregisters
  have hdeferral : deferralAt c s steps n =
      deferrals frame ((before c s steps n).index.lineEndActions event frame) := by
    rw [deferralAt, lineEndAt, hn]
  have hstate := (traceCall_eq_dispatched c event frame
    (s := { before c s steps n with heap := heap }) h.enabled).1
  have hleft := (CallbackRegistry.takeMatching_of_isCounted h.counted event frame).2
  rw [before_succ hn, after, hstate, hregisters.filterMap_pending]
  dsimp only
  rw [hleft, (h.due hn).2, flatMap_deferralAt_succ, hdeferral]

/-- The invariant holds in the whole course of a run without panics. -/
theorem awaits_before
    (hcalm : ∀ handle, c.plugins.closePanics handle = false)
    (hlocals : ∀ frame ∈ HookStep.frames steps, frame.bindings?.isSome)
    (henabled : s.enabled = true)
    (hfresh : s.callbacks = .empty)
    {n : Nat}
    (hn : n ≤ steps.length) :
    Awaits c s steps n := by
  induction n with
  | zero =>
      refine ⟨henabled, ?_, ?_⟩
      · rw [before, List.take_zero, List.foldl_nil, hfresh]
        rfl
      · rw [before, List.take_zero, List.foldl_nil, hfresh]
        rfl
  | succ n ih =>
      have hstep : steps[n]? = some steps[n] := List.getElem?_eq_getElem hn
      have hawaits := ih (Nat.le_of_succ_le hn)
      cases hkind : steps[n] with
      | update tps =>
          rw [hkind] at hstep
          exact hawaits.update hstep
      | event heap event frame =>
          rw [hkind] at hstep
          refine hawaits.event hcalm hstep (hlocals frame ?_)
          exact List.mem_filterMap.2 ⟨_, List.mem_of_getElem? hstep, rfl⟩

/-- From before each event of a run to after it, the work of its callbacks is done, the actions
for the end of its line are left, and its own actions are handed to a context, each in its turn.
Of the actions left for the ends of lines just those that are due are handed on, before the
event's own.  What fires was handed on and is on record. -/
theorem line_ends_handed_once
    (hcalm : ∀ handle, c.plugins.closePanics handle = false)
    (hlocals : ∀ frame ∈ HookStep.frames steps, frame.bindings?.isSome)
    (henabled : s.enabled = true)
    (hfresh : s.callbacks = .empty)
    {j : Nat} {heap : Heap} {event : TraceEvent} {frame : HostFrame}
    (hj : steps[j]? = some (.event heap event frame)) :
    let t := { before c s steps j with heap := heap }
    let work := t.workAt event frame
    let due := (List.range j).filter fun i => HookStep.nextMove steps i = some j
    let handed :=
      (due.map (lineEndAt c s steps) ++ [t.index.immediateActions event frame]).filter
        (!·.isEmpty)
    Does c event frame work (t.firedOn c event frame)
        { t with callbacks := (t.callbacks.takeMatching event frame).2 }
        (before c s steps (j + 1)) ∧
      work.filterMap Work.handed? = handed ∧
      work.filterMap Work.left? = [lineEndAt c s steps j] ∧
      t.handedOn c event frame = handed.map (Handed.mk event frame) ∧
      (before c s steps (j + 1)).contexts = (t.contexts.nextMany handed.length).2 ∧
      (t.firedOn c event frame).Sublist handed.flatten ∧
      t.ledger.Fires (t.firedOn c event frame) (before c s steps (j + 1)).ledger := by
  intro t work due handed
  obtain ⟨hlength, -⟩ := List.getElem?_eq_some_iff.1 hj
  have hawaits := awaits_before hcalm hlocals henabled hfresh hlength.le
  have hframe : frame.bindings?.isSome :=
    hlocals frame (List.mem_filterMap.2 ⟨_, List.mem_of_getElem? hj, rfl⟩)
  obtain ⟨hcontexts, hdoes⟩ := does_of_calm hcalm hframe event t
  obtain ⟨hstate, hsame, hfired⟩ :=
    traceCall_eq_dispatched c event frame (s := t) hawaits.enabled
  have hafter : before c s steps (j + 1) = t.dispatched c event frame := by
    rw [before_succ hj, after, hstate]
  have hhanded : work.filterMap Work.handed? = handed := by
    have hdue := congrArg (List.map Prod.snd) (hawaits.due hj).1
    rw [map_snd_deferrals] at hdue
    calc work.filterMap Work.handed?
        = _ ++ [t.index.immediateActions event frame].filter (!·.isEmpty) :=
          handed_workAt (s := t) hawaits.counted event frame
      _ = (due.map (lineEndAt c s steps)).filter (!·.isEmpty) ++ _ := congrArg (· ++ _) hdue
      _ = handed := (List.filter_append _ _).symm
  have hlineEnd : lineEndAt c s steps j = t.index.lineEndActions event frame := by
    rw [lineEndAt, hj]
  have hregisters := registers_of_does hdoes
  have hsub := sublist_of_does hdoes
  rw [contextsOf, hhanded, List.flatMap_map] at hsub
  rw [hafter, hfired, hsame, hcontexts, hlineEnd]
  refine ⟨hdoes, hhanded, left_workAt t event frame, ?_, ?_, ?_, ?_⟩
  · rw [contextsOf, hhanded]
  · rw [hregisters.contexts, hhanded]
  · rwa [List.flatten_eq_flatMap]
  · rw [← hafter, before_succ hj, after, ← hfired]
    exact (serves_traceCall c event frame t).ledger

end Run

/-- A message at the end of a line. -/
def closingMessage : Tracepoint :=
  ⟨"end", "handler.py", 3,
    .ofList [("stage", "line_end"), ("log_msg", "hit"), ("snapshot", "no_collect")], [], []⟩

/-- Two activations of one function come to the line; the configuration is cleared; then one
calls, and the other goes on. -/
def interleaved : List HookStep :=
  let frame (activation : Nat) (line : UInt32) : HostFrame :=
    ⟨⟨"/srv/app/handler.py", "handle", line, activation, some [], none, false, none⟩, []⟩
  [.update [closingMessage], .event .empty .line (frame 1 3), .event .empty .line (frame 2 3),
    .update [], .event .empty .call (frame 1 9), .event .empty .line (frame 2 4)]

/-- The last event runs the message of its own activation, though no tracepoint is left; that
of the other activation goes on waiting. -/
theorem line_ends_handed_once_interleaved :
    let c := Firing.plainCollaborators
    let s := initial .empty (.ofSize 1 1)
    let frame : HostFrame :=
      ⟨⟨"/srv/app/handler.py", "handle", 4, 2, some [], none, false, none⟩, []⟩
    (HookStep.nextMove interleaved 1 = none ∧ HookStep.nextMove interleaved 2 = some 5) ∧
      ((lineEndAt c s interleaved 2).map Action.id = ["end-log"]) ∧
      { before c s interleaved 5 with heap := .empty }.handedOn c .line frame =
        [⟨.line, frame, lineEndAt c s interleaved 2⟩] ∧
      (before c s interleaved 5).journal.logs.size = 0 ∧
      (before c s interleaved 6).journal.logs.map LogRecord.message = #["[deep] hit"] := by
  intro c s frame
  have hcalm : ∀ handle, c.plugins.closePanics handle = false := by
    intro handle
    simp [c, Firing.plainCollaborators, Plugins.closePanics, Plugins.empty]
  have hlocals : ∀ frame ∈ HookStep.frames interleaved, frame.bindings?.isSome := by decide
  have hlast : interleaved[5]? = some (.event .empty .line frame) := rfl
  have hnext : HookStep.nextMove interleaved 1 = none ∧
      HookStep.nextMove interleaved 2 = some 5 := by decide
  obtain ⟨-, -, -, hhanded, -⟩ :=
    line_ends_handed_once (s := s) hcalm hlocals rfl rfl hlast
  refine ⟨hnext, by decide +kernel, ?_, by decide +kernel, by decide +kernel⟩
  rw [hhanded]
  change _ = [lineEndAt c s interleaved 2].map (Handed.mk .line frame)
  refine congrArg (List.map _) ?_
  decide +kernel

end AgentState
end LiveProbe
