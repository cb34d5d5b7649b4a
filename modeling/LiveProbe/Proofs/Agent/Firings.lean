import LiveProbe.Proofs.Context.Delivery
import LiveProbe.Proofs.Context.Processing

/-!
# Firings on record

Which actions fire at an event, and what of it is on record afterwards.

**Input.**  Any state of the agent, and any event in any frame.

**Trace.**  The actions that fire are listed along the handling of the event: those of
callbacks first, then those of the triggers that are hit (`AgentState.firedOn`).

**Results.**
* `count_of_fires`: the count of a key grows by the firings of the actions that bear
  it.
* `count_le_of_fires`: no count grows beyond the limit of the actions that bear its
  key.
* `serves_traceCall`: at an event only actions fire that waited for it or that are in
  the index; each is on record; and those alone wait afterwards.
-/

namespace LiveProbe

/-! ### The ledger -/

namespace FireLedger

/-- Actions fire in turn, each at a time at which its limits allow it. -/
inductive Fires : FireLedger → List Action → FireLedger → Prop
  | nil (l : FireLedger) : Fires l [] l
  | cons {l l' : FireLedger} {a : Action} {rest : List Action} {ts : Nat} :
      a.limits.refusal? (l.read a.key) ts = none →
      Fires (l.record a.key ts) rest l' →
      Fires l (a :: rest) l'

theorem Fires.append
    {l m n : FireLedger} {fired more : List Action}
    (h : l.Fires fired m)
    (h' : m.Fires more n) :
    l.Fires (fired ++ more) n := by
  induction h with
  | nil _ =>
      exact h'
  | cons hallowed _ ih =>
      exact Fires.cons hallowed (ih h')

theorem next_record
    (l : FireLedger) (key ts : Nat) :
    (l.record key ts).next = l.next := by
  simp [record, write, next]

theorem Fires.next
    {l l' : FireLedger} {fired : List Action}
    (h : l.Fires fired l') :
    l'.next = l.next := by
  induction h with
  | nil _ =>
      rfl
  | @cons l _ a _ ts _ _ ih =>
      rw [ih, next_record]

/-- A record raises the count of its own key only. -/
theorem count_record
    (l : FireLedger)
    {key : Nat}
    (hkey : key < l.next)
    (other ts : Nat) :
    ((l.record other ts).read key).count =
      (l.read key).count + if other = key then 1 else 0 := by
  unfold record
  by_cases hother : other = key
  · subst hother
    rw [read_write_self _ _ hkey, if_pos rfl]
    rfl
  · rw [read_write_of_ne _ _ hother, if_neg hother, Nat.add_zero]

/-- The count of a key grows by the firings of the actions that bear it. -/
theorem count_of_fires
    {l l' : FireLedger} {fired : List Action} {key : Nat}
    (h : l.Fires fired l')
    (hkey : key < l.next) :
    (l'.read key).count = (l.read key).count + fired.countP fun a => a.key = key := by
  induction h with
  | nil _ =>
      rfl
  | @cons l _ a _ ts _ _ ih =>
      rw [ih (by rw [next_record]; exact hkey), count_record l hkey, List.countP_cons]
      simp only [decide_eq_true_eq]
      omega

/-- An action that may fire has not reached its limit. -/
theorem lt_of_allowed
    {limits : FireLimits} {s : FireStats} {ts : Nat}
    (hallowed : limits.refusal? s ts = none)
    (hlimit : limits.fireCount ≠ Limits.unlimitedFireCount) :
    (s.count : Int) < limits.fireCount := by
  unfold FireLimits.refusal? at hallowed
  split at hallowed
  · cases hallowed
  · next hcount =>
      by_contra hle
      exact hcount ⟨hlimit, by omega⟩

/-- No firings lead beyond a limit that all actions of a key share. -/
theorem count_le_of_fires
    {l l' : FireLedger} {fired : List Action} {key : Nat} {limit : Int}
    (h : l.Fires fired l')
    (hkey : key < l.next)
    (hlimit : limit ≠ Limits.unlimitedFireCount)
    (hfired : ∀ a ∈ fired, a.key = key → a.limits.fireCount = limit)
    (hcount : ((l.read key).count : Int) ≤ limit) :
    ((l'.read key).count : Int) ≤ limit := by
  induction h with
  | nil _ =>
      exact hcount
  | @cons l _ a _ ts hallowed _ ih =>
      refine ih (by rw [next_record]; exact hkey)
        (fun b hb => hfired b (List.mem_cons_of_mem a hb)) ?_
      rw [count_record l hkey]
      split
      · next hsame =>
          have hbound := hfired a List.mem_cons_self hsame
          have hlt := lt_of_allowed hallowed (by rw [hbound]; exact hlimit)
          rw [hsame, hbound] at hlt
          omega
      · simpa using hcount

end FireLedger

/-! ### Service of actions -/

namespace AgentState

/-- From one state to the next, actions fire out of some that are given.  Beside those
that waited, actions of the index may wait afterwards. -/
structure Serves (s : AgentState) (actions fired : List Action) (s' : AgentState) : Prop where
  index : s'.index = s.index
  ledger : s.ledger.Fires fired s'.ledger
  fired : fired ⊆ actions
  waiting : s'.waiting ⊆ s.waiting ++ s.index.actions

section Serves

variable {s t u : AgentState} {actions fired more : List Action}

theorem Delivers.serves
    {snapshots : List Snapshot}
    (h : s.Delivers snapshots t) :
    s.Serves actions [] t := by
  refine ⟨h.index, ?_, List.nil_subset _, ?_⟩
  · rw [h.ledger]
    exact FireLedger.Fires.nil _
  · rw [h.waiting]
    exact List.subset_append_left _ _

theorem Serves.trans
    (h : s.Serves actions fired t)
    (h' : t.Serves actions more u) :
    s.Serves actions (fired ++ more) u := by
  refine ⟨h'.index.trans h.index, h.ledger.append h'.ledger,
    List.append_subset.2 ⟨h.fired, h'.fired⟩, fun a ha => ?_⟩
  rcases List.mem_append.1 (h'.waiting ha) with hwaiting | hindex
  · exact h.waiting hwaiting
  · rw [h.index] at hindex
    exact List.mem_append_right _ hindex

theorem Serves.mono
    {others : List Action}
    (h : s.Serves actions fired t)
    (hsub : actions ⊆ others) :
    s.Serves others fired t :=
  ⟨h.index, h.ledger, fun _ ha => hsub (h.fired ha), h.waiting⟩

end Serves

end AgentState

/-! ### Actions of one context -/

namespace Firing

variable (c : Collaborators)

/-- The actions that fire when actions are processed. -/
def fired : List Action → Firing → List Action
  | [], _ => []
  | a :: rest, f =>
      if (f.fire c a).1 then a :: fired rest (f.fire c a).2
      else fired rest (f.fire c a).2

/-- An action that fires is recorded, and no other. -/
theorem fires_fire
    (a : Action) (f : Firing) :
    f.agent.ledger.Fires (if (f.fire c a).1 then [a] else []) (f.fire c a).2.agent.ledger := by
  obtain ⟨hkeeps, hledger, _⟩ := contain_processAction c a f
  unfold fire
  split
  · exact FireLedger.Fires.nil _
  · next hallowed =>
      rcases hrun : f.contain (Acting.processAction c a) with ⟨_ | _, g⟩ <;>
        rw [hrun] at hkeeps hledger
      · dsimp only at hledger ⊢
        rw [hledger]
        exact FireLedger.Fires.nil _
      · -- The limits were asked before, of the same record and for the same time.
        have hrecorded :
            (g.record a).agent.ledger = f.agent.ledger.record a.key f.context.ts := by
          have hts : g.context.ts = f.context.ts := hkeeps.ts
          have hsame : g.agent.ledger = f.agent.ledger := hledger
          rw [record, hts, hsame]
        refine FireLedger.Fires.cons hallowed ?_
        dsimp only
        rw [hrecorded]
        exact FireLedger.Fires.nil _

/-- The ledger records just the firings of a processing, all of them of the actions at hand. -/
theorem fires_process
    (actions : List Action) (f : Firing) :
    f.agent.ledger.Fires (f.fired c actions) (f.process c actions).2.agent.ledger ∧
      f.fired c actions ⊆ actions := by
  induction actions generalizing f with
  | nil =>
      exact ⟨FireLedger.Fires.nil _, List.nil_subset _⟩
  | cons a rest ih =>
      have hfirst := fires_fire c a f
      obtain ⟨hrest, hsub⟩ := ih (f.fire c a).2
      unfold fired
      by_cases hfires : (f.fire c a).1 = true
      · rw [if_pos hfires] at hfirst ⊢
        exact ⟨hfirst.append hrest, List.cons_subset_cons a hsub⟩
      · rw [if_neg hfires] at hfirst ⊢
        exact ⟨hfirst.append hrest, fun _ hb => List.mem_cons_of_mem a (hsub hb)⟩

end Firing

/-! ### Actions of one event -/

namespace TriggerIndex

/-- The actions of a trigger that matches are those of the index. -/
theorem actions_subset_of_mem_matching
    {index : TriggerIndex} {event : TraceEvent} {file : String} {line : UInt32} {function : String}
    {t : Trigger}
    (ht : t ∈ index.matching event file line function) :
    t.actions ⊆ index.actions := by
  intro a ha
  have hbucket : t ∈ index.bucket file := (List.mem_filter.1 ht).1
  unfold TriggerIndex.bucket at hbucket
  rcases hlookup : index.buckets.lookup (Path.baseName file) with _ | bucket
  · rw [hlookup] at hbucket
    cases hbucket
  · rw [hlookup] at hbucket
    obtain ⟨before, after, hsplit, _⟩ := List.lookup_eq_some_iff.1 hlookup
    refine List.mem_flatMap.2
      ⟨t, List.mem_flatMap.2 ⟨(Path.baseName file, bucket), ?_, hbucket⟩, ha⟩
    rw [hsplit]
    exact List.mem_append_right _ List.mem_cons_self

end TriggerIndex

namespace AgentState

variable (c : Collaborators) (event : TraceEvent) (frame : HostFrame)

/-- The actions that fire in a context of their own. -/
def firedIn (actions : List Action) (s : AgentState) : List Action :=
  match Firing.begin? c event frame actions s with
  | none => []
  | some f => f.fired c actions

/-- The actions that fire when a callback runs. -/
def firedBy (callback : DeferredCallback) (s : AgentState) : List Action :=
  match callback.payload with
  | .closeSpans _ => []
  | .runActions actions => s.firedIn c event frame actions

/-- The actions that fire when callbacks run. -/
def firedByAll : List DeferredCallback → AgentState → List Action
  | [], _ => []
  | callback :: rest, s =>
      s.firedBy c event frame callback ++
        match s.runCallback c event frame callback.payload with
        | (true, s) => firedByAll rest s
        | (false, _) => []

/-- The actions that fire at the triggers that are hit. -/
def firedAtHit (s : AgentState) : List Action :=
  let hit := s.index.matching event frame.top.file frame.top.line frame.top.function
  let (waiting, immediate) := hit.partition isLineEnd
  let s := s.deferActions frame (waiting.flatMap Trigger.actions)
  let actions := immediate.flatMap Trigger.actions
  if actions.isEmpty then [] else s.firedIn c event frame actions

/-- The actions that fire when an event is dispatched. -/
def firedInDispatch (s : AgentState) : List Action :=
  let (taken, callbacks) := s.callbacks.takeMatching event frame
  let s := { s with callbacks := callbacks }
  s.firedByAll c event frame taken ++
    match s.runCallbacks c event frame taken with
    | (false, _) => []
    | (true, s) => if s.index.hasFile frame.top.file then s.firedAtHit c event frame else []

/-- The actions that fire at an event, in their order. -/
def firedOn (s : AgentState) : List Action :=
  match s.shortcut? event frame with
  | some _ => []
  | none => s.firedInDispatch c event frame

theorem serves_runActions
    (actions : List Action) (s : AgentState) :
    s.Serves actions (s.firedIn c event frame actions)
      (s.runActions c event frame actions).2 := by
  unfold firedIn runActions
  rcases hbegin : Firing.begin? c event frame actions s with _ | f
  · exact (s.delivers_refl []).serves
  · have hbegun := Firing.delivers_begin? hbegin
    have hkeeps := Firing.keeps_process c actions f
    obtain ⟨hfires, hsub⟩ := Firing.fires_process c actions f
    have hprocessed : f.agent.Serves actions (f.fired c actions) (f.process c actions).2.agent := by
      refine ⟨hkeeps.index, hfires, hsub, ?_⟩
      unfold waiting
      rw [hkeeps.callbacks]
      exact List.subset_append_left _ _
    obtain ⟨_, hclosed⟩ := Firing.delivers_close c (f.process c actions).2
    have hall := (hbegun.serves.trans hprocessed).trans hclosed.serves
    rwa [List.nil_append, List.append_nil] at hall

/-- A callback serves the actions that were left to it. -/
theorem serves_runCallback
    (callback : DeferredCallback) (s : AgentState) :
    s.Serves callback.actions (s.firedBy c event frame callback)
      (s.runCallback c event frame callback.payload).2 := by
  unfold firedBy runCallback DeferredCallback.actions
  rcases callback.payload with handles | actions
  · exact (delivers_closeSpans c handles s []).serves
  · exact serves_runActions c event frame actions s

/-- Callbacks serve the actions that were left to them. -/
theorem serves_runCallbacks
    (taken : List DeferredCallback) (s : AgentState) :
    s.Serves (taken.flatMap DeferredCallback.actions) (s.firedByAll c event frame taken)
      (s.runCallbacks c event frame taken).2 := by
  induction taken generalizing s with
  | nil =>
      exact (s.delivers_refl []).serves
  | cons callback rest ih =>
      have hfirst := serves_runCallback c event frame callback s
      rw [List.flatMap_cons]
      unfold firedByAll runCallbacks
      rcases hrun : s.runCallback c event frame callback.payload with ⟨_ | _, t⟩ <;>
        rw [hrun] at hfirst
      · rw [List.append_nil]
        exact hfirst.mono (List.subset_append_left _ _)
      · exact (hfirst.mono (List.subset_append_left _ _)).trans
          ((ih t).mono (List.subset_append_right _ _))

/-- Leaving actions for the end of a line fires nothing, and all that then waits is of the index. -/
theorem serves_deferActions
    {actions : List Action} {s : AgentState}
    (hsub : actions ⊆ s.index.actions)
    (others : List Action) :
    s.Serves others [] (s.deferActions frame actions) := by
  unfold deferActions
  split
  · exact (s.delivers_refl []).serves
  · refine ⟨rfl, FireLedger.Fires.nil _, List.nil_subset _, fun a ha => ?_⟩
    simp only [waiting, CallbackRegistry.register, CallbackRegistry.ofPending,
      List.flatMap_append, List.flatMap_cons, List.flatMap_nil, List.append_nil,
      List.mem_append] at ha ⊢
    rcases ha with hold | hnew
    · exact Or.inl hold
    · exact Or.inr (hsub hnew)

/-- The triggers that an event hits serve actions of the index. -/
theorem serves_runMatching
    (s : AgentState) :
    s.Serves s.index.actions (s.firedAtHit c event frame) (s.runMatching c event frame).2 := by
  unfold firedAtHit runMatching
  dsimp only
  rw [List.partition_eq_filter_filter]
  have hhit :
      ∀ p : Trigger → Bool,
        ((s.index.matching event frame.top.file frame.top.line frame.top.function).filter p).flatMap
          Trigger.actions ⊆ s.index.actions := by
    intro p a ha
    obtain ⟨t, ht, hat⟩ := List.mem_flatMap.1 ha
    exact TriggerIndex.actions_subset_of_mem_matching (List.mem_filter.1 ht).1 hat
  have hdefer := serves_deferActions frame (hhit isLineEnd) s.index.actions
  split
  · exact hdefer
  · exact hdefer.trans ((serves_runActions c event frame _ _).mono (hhit _))

/-! ### Events -/

/-- An event serves what was waiting and what the index has. -/
theorem serves_dispatch
    (s : AgentState) :
    s.Serves (s.waiting ++ s.index.actions) (s.firedInDispatch c event frame)
      (s.dispatch c event frame).2 := by
  have htaken :
      (s.callbacks.takeMatching event frame).1.flatMap DeferredCallback.actions ⊆ s.waiting ∧
        (s.callbacks.takeMatching event frame).2.pending.flatMap DeferredCallback.actions ⊆
          s.waiting := by
    have hpart :
        ∀ p : DeferredCallback → Bool,
          (s.callbacks.pending.filter p).flatMap DeferredCallback.actions ⊆ s.waiting := by
      intro p a ha
      obtain ⟨callback, hmem, hrun⟩ := List.mem_flatMap.1 ha
      exact List.mem_flatMap.2 ⟨callback, (List.mem_filter.1 hmem).1, hrun⟩
    unfold CallbackRegistry.takeMatching
    split
    · exact ⟨List.nil_subset _, List.Subset.refl _⟩
    · rw [List.partition_eq_filter_filter]
      exact ⟨hpart _, hpart _⟩
  unfold firedInDispatch dispatch
  rcases htake : s.callbacks.takeMatching event frame with ⟨taken, callbacks⟩
  rw [htake] at htaken
  obtain ⟨hsub, hleft⟩ := htaken
  have hbegun : s.Serves (s.waiting ++ s.index.actions) [] { s with callbacks := callbacks } :=
    ⟨rfl, FireLedger.Fires.nil _, List.nil_subset _, fun _ ha => List.mem_append_left _ (hleft ha)⟩
  have hcallbacks := serves_runCallbacks c event frame taken
    { s with callbacks := callbacks }
  have hran := hbegun.trans (hcallbacks.mono fun _ ha => List.mem_append_left _ (hsub ha))
  rw [List.nil_append] at hran
  dsimp only
  rcases hrun : runCallbacks c event frame taken { s with callbacks := callbacks } with
    ⟨_ | _, t⟩ <;> rw [hrun] at hran
  · rw [List.append_nil]
    exact hran
  · dsimp only at hran ⊢
    split
    · have hhit := serves_runMatching c event frame t
      rw [hran.index] at hhit
      exact hran.trans (hhit.mono (List.subset_append_right _ _))
    · rw [List.append_nil]
      exact hran

theorem serves_traceCall
    (s : AgentState) :
    s.Serves (s.waiting ++ s.index.actions) (s.firedOn c event frame)
      (s.traceCall c event frame).2 := by
  unfold firedOn traceCall
  rcases s.shortcut? event frame with _ | k
  · have hdispatch := serves_dispatch c event frame s
    dsimp only
    rcases hrun : s.dispatch c event frame with ⟨_ | _, t⟩ <;> rw [hrun] at hdispatch
    · have hreported : t.Delivers [] (t.report .hookPanicked) :=
        ⟨rfl, rfl, rfl, fun _ hx => Or.inl hx⟩
      have hlast : t.Serves (s.waiting ++ s.index.actions) [] (t.report .hookPanicked) :=
        hreported.serves
      have hall := hdispatch.trans hlast
      rwa [List.append_nil] at hall
    · exact hdispatch
  · exact (s.delivers_refl []).serves

end AgentState
end LiveProbe
