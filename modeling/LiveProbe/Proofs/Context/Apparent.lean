import LiveProbe.Proofs.Context.Spans
import LiveProbe.Proofs.Context.Uniform

/-!
# Delivery without identities

What of a delivered context is left if the identities of values are left out.

**View.**  A state as it appears (`AgentState.apparent`) has no cells, and in the snapshots
that have left it no record tells the identity of its value.  Its messages and metric
emissions alone are what it has told (`AgentState.told`).

**Results.**
* `apparent_deliverAll`: deliveries do not look at identities.
* `Alike.close_apparent`: contexts that are alike in the exact view are closed to states of
  one appearance.
* `Alike.close_told`: those that are alike in the rough view are closed to states that have
  told the same.
-/

namespace LiveProbe

/-! ### Mapped containers -/

namespace SortedMap

variable {α β : Type}

/-- The map with its values changed. -/
def map (f : α → β) (m : SortedMap α) : SortedMap β where
  entries := m.entries.map fun e => (e.1, f e.2)
  ascending := by
    refine List.pairwise_map.2 ?_
    exact m.ascending

/-- Values may be mapped before or after they are placed. -/
theorem map_place
    (f : α → β) (key : String) (value : α) (es : List (String × α)) :
    (place key value es).map (fun e => (e.1, f e.2)) =
      place key (f value) (es.map fun e => (e.1, f e.2)) := by
  induction es with
  | nil =>
      rfl
  | cons d ds ih =>
      simp only [place, List.map_cons]
      split
      · rfl
      · split
        · rfl
        · rw [List.map_cons, ih]

/-- Values may be mapped before or after a map is made of them. -/
theorem map_ofList
    (f : α → β) (es : List (String × α)) :
    (ofList es).map f = ofList (es.map fun e => (e.1, f e.2)) := by
  have hfold : ∀ m : SortedMap α, (es.foldl (fun m e => m.insert e.1 e.2) m).map f =
      (es.map fun e => (e.1, f e.2)).foldl (fun m e => m.insert e.1 e.2) (m.map f) := by
    induction es with
    | nil =>
        intro m
        rfl
    | cons e rest ih =>
        intro m
        have hinsert : (m.insert e.1 e.2).map f = (m.map f).insert e.1 (f e.2) :=
          ext_entries (map_place f e.1 e.2 m.entries)
        rw [List.foldl_cons, List.map_cons, List.foldl_cons, ih, hinsert]
  exact hfold empty

end SortedMap

namespace TaskPool

variable {τ σ : Type}

/-- The pool with its tasks changed. -/
def map (f : τ → σ) (p : TaskPool τ) : TaskPool σ where
  workers := p.workers
  capacity := p.capacity
  waiting := p.waiting.map f
  running := p.running.map f
  finished := p.finished.map f
  pending := p.pending
  isShutDown := p.isShutDown

theorem take?_map
    (f : τ → σ) (p : TaskPool τ) :
    (p.map f).take? = p.take?.map (map f) := by
  unfold take?
  cases hwaiting : p.waiting with
  | nil =>
      simp only [map, hwaiting, List.map_nil, Option.map_none]
  | cons task rest =>
      simp only [map, hwaiting, List.map_cons, List.length_map]
      split
      · simp [map]
      · rfl

/-- Tasks are handed in alike, whatever they are. -/
theorem enqueue_map
    (f : τ → σ) (p : TaskPool τ) (task : τ) :
    (p.map f).enqueue (f task) = ((p.enqueue task).1, (p.enqueue task).2.map f) := by
  have hsubmit : (p.map f).submit (f task) = ((p.submit task).1, (p.submit task).2.map f) := by
    unfold submit
    simp only [map, List.length_map]
    split
    · rfl
    · split
      · rfl
      · simp
  unfold enqueue
  rw [hsubmit]
  generalize p.submit task = q
  obtain ⟨answer, p'⟩ := q
  dsimp only
  rw [take?_map]
  cases p'.take? <;> rfl

end TaskPool

/-! ### Appearance -/

/-- The snapshot without the identities of its records. -/
def Snapshot.apparent (s : Snapshot) : Snapshot :=
  { s with lookup := s.lookup.map Variable.unhashed }

/-- The result without identities. -/
def ActionResult.apparent : ActionResult → ActionResult
  | .snapshot s => .snapshot s.apparent
  | r => r

namespace AgentState

/-- The state without cells, and with what has left it without identities. -/
def apparent (s : AgentState) : AgentState :=
  { s with
    heap := .empty
    pool := s.pool.map Snapshot.apparent
    journal := { s.journal with snapshots := s.journal.snapshots.map Snapshot.apparent } }

/-- The messages and metric emissions that left the agent. -/
def told (s : AgentState) : Array LogRecord × Array MetricEmission :=
  (s.journal.logs, s.journal.metrics)

/-- An answer and the state after it, as it appears. -/
def Appears {α : Type} (p p' : α × AgentState) : Prop := p'.1 = p.1 ∧ p'.2 = p.2.apparent

variable (c : Collaborators)

/-- Answers of collaborators do not depend on hashes. -/
theorem appears_react
    (reaction : Reaction) (s : AgentState) :
    Appears (s.react c deliverInside reaction) (s.apparent.react c deliverInside reaction) := by
  cases reaction <;> exact ⟨rfl, rfl⟩

/-- The push of a snapshot does not look at its hashes. -/
theorem appears_pushSnapshot
    (snapshot : Snapshot) (s : AgentState) :
    Appears (s.pushSnapshot c deliverInside snapshot)
      (s.apparent.pushSnapshot c deliverInside snapshot.apparent) := by
  unfold pushSnapshot
  cases c.push with
  | direct reaction =>
      have hsize : s.apparent.journal.snapshots.size = s.journal.snapshots.size :=
        Array.size_map
      have hkept : { s.apparent with journal := s.apparent.journal.keep snapshot.apparent } =
          ({ s with journal := s.journal.keep snapshot } : AgentState).apparent := by
        simp only [apparent, Journal.keep, Array.map_push]
      dsimp only
      rw [hsize, hkept]
      exact appears_react c _ _
  | queued =>
      have hqueued : s.apparent.pool.enqueue snapshot.apparent =
          ((s.pool.enqueue snapshot).1, (s.pool.enqueue snapshot).2.map Snapshot.apparent) :=
        TaskPool.enqueue_map _ _ _
      dsimp only
      rw [hqueued]
      rcases s.pool.enqueue snapshot with ⟨_ | _, pool⟩
      · exact ⟨rfl, rfl⟩
      · exact ⟨rfl, rfl⟩

theorem appears_closeSpans
    (handles : List SpanHandle) (s : AgentState) :
    Appears (closeSpans c handles s) (closeSpans c handles s.apparent) := by
  induction handles generalizing s with
  | nil =>
      exact ⟨rfl, rfl⟩
  | cons handle rest ih =>
      unfold closeSpans
      dsimp only
      split
      · exact ⟨rfl, rfl⟩
      · exact ih _

theorem appears_deliver
    (context : UInt64) (r : ActionResult) (s : AgentState) :
    Appears (s.deliver c deliverInside context r)
      (s.apparent.deliver c deliverInside context r.apparent) := by
  cases r with
  | log tracepoint message => exact appears_react c _ _
  | snapshot snapshot => exact appears_pushSnapshot c snapshot s
  | metric tracepoint => exact ⟨rfl, rfl⟩
  | span tracepoint handles location =>
      cases location with
      | some location => exact ⟨rfl, rfl⟩
      | none =>
          have hclosed := appears_closeSpans c handles s
          unfold deliver
          dsimp only [ActionResult.apparent]
          generalize closeSpans c handles s = p at hclosed ⊢
          generalize closeSpans c handles s.apparent = p' at hclosed ⊢
          obtain ⟨_ | _, t⟩ := p <;> obtain ⟨_, t'⟩ := p' <;> obtain ⟨rfl, rfl⟩ := hclosed
          · exact ⟨rfl, rfl⟩
          · exact ⟨rfl, rfl⟩

/-- Deliveries do not look at identities. -/
theorem apparent_deliverAll
    (context : UInt64) (results : List ActionResult) (s : AgentState) :
    (s.deliverAll c deliverInside context results).apparent =
      s.apparent.deliverAll c deliverInside context (results.map ActionResult.apparent) := by
  induction results generalizing s with
  | nil =>
      rfl
  | cons r rest ih =>
      have hfirst := appears_deliver c context r s
      have hreported : ∀ (outcome : DeliveryOutcome) (t : AgentState),
          (t.reportDelivery outcome).apparent = t.apparent.reportDelivery outcome := by
        intro outcome t
        cases outcome <;> rfl
      rw [List.map_cons, deliverAll, deliverAll]
      dsimp only
      rw [ih, hreported, hfirst.1, hfirst.2]

theorem told_react
    (reaction : Reaction) (s : AgentState) :
    (s.react c deliverInside reaction).2.told = s.told := by
  cases reaction <;> rfl

theorem told_pushSnapshot
    (snapshot : Snapshot) (s : AgentState) :
    (s.pushSnapshot c deliverInside snapshot).2.told = s.told := by
  unfold pushSnapshot
  cases c.push with
  | direct reaction => exact told_react c _ _
  | queued => rcases s.pool.enqueue snapshot with ⟨_ | _, pool⟩ <;> rfl

theorem told_closeSpans
    (handles : List SpanHandle) (s : AgentState) :
    (closeSpans c handles s).2.told = s.told := by
  induction handles generalizing s with
  | nil =>
      rfl
  | cons handle rest ih =>
      unfold closeSpans
      dsimp only
      split
      · rfl
      · exact ih _

/-- A message is told to the logger. -/
def tell (context : UInt64) (told : Array LogRecord × Array MetricEmission)
    (m : String × String) : Array LogRecord × Array MetricEmission :=
  (told.1.push ⟨m.2, m.1, context⟩, told.2)

theorem told_deliver
    (context : UInt64) (r : ActionResult) (s : AgentState) :
    (s.deliver c deliverInside context r).2.told =
      r.message?.toList.foldl (tell context) s.told := by
  cases r with
  | log tracepoint message => exact told_react c _ _
  | snapshot snapshot => exact told_pushSnapshot c snapshot s
  | metric tracepoint => rfl
  | span tracepoint handles location =>
      cases location with
      | some location => rfl
      | none =>
          have hclosed := told_closeSpans c handles s
          unfold deliver
          dsimp only
          generalize closeSpans c handles s = p at hclosed ⊢
          obtain ⟨_ | _, t⟩ := p <;> exact hclosed

/-- Of the results only messages are told. -/
theorem told_deliverAll
    (context : UInt64) (results : List ActionResult) (s : AgentState) :
    (s.deliverAll c deliverInside context results).told =
      (results.filterMap ActionResult.message?).foldl (tell context) s.told := by
  induction results generalizing s with
  | nil =>
      rfl
  | cons r rest ih =>
      have hreported : ∀ (outcome : DeliveryOutcome) (t : AgentState),
          (t.reportDelivery outcome).told = t.told := by
        intro outcome t
        cases outcome <;> rfl
      rw [deliverAll]
      dsimp only
      rw [ih, hreported, told_deliver, List.filterMap_cons]
      cases r.message? <;> rfl

end AgentState

/-! ### Contexts -/

namespace VariableTable

/-- Tables that are alike have the same lookup apart from hashes. -/
theorem Alike.lookup_eq
    {R : Ref → Ref → Prop} {t t' : VariableTable}
    (h : t.Alike R t') :
    (SortedMap.ofList t.lookup).map Variable.unhashed =
      (SortedMap.ofList t'.lookup).map Variable.unhashed := by
  have hlookup : ∀ t : VariableTable, t.lookup.map (fun e => (e.1, e.2.unhashed)) =
      (t.records.map Variable.unhashed).toList.zipIdx.map fun p => (idOf (p.2 + 1), p.1) := by
    intro t
    rw [lookup, Array.toList_map, List.zipIdx_map, List.map_map, List.map_map]
    rfl
  rw [SortedMap.map_ofList, SortedMap.map_ofList, hlookup, hlookup, h.records]

end VariableTable

namespace Firing

variable {c : Collaborators} {f g : Firing} {R : Ref → Ref → Prop}

/-- A snapshot may be finished before or after its hashes are left out. -/
theorem apparent_finished
    (messages : List (String × String)) (attached : List (String × WatchResult))
    (lookup : SortedMap Variable) (now : Nat) (s : Snapshot) :
    (s.finished messages attached lookup now).apparent =
      s.finished messages attached (lookup.map Variable.unhashed) now := by
  unfold Snapshot.finished Snapshot.complete Snapshot.apparent
  dsimp only
  split <;> rfl

/-- Results are finished with the same appearance. -/
theorem Alike.finishedResults_eq
    (h : f.Alike true R g)
    (now : Nat) :
    (finishedResults f.context now).map ActionResult.apparent =
      (finishedResults g.context now).map ActionResult.apparent := by
  have hresults : f.context.results = g.context.results :=
    h.visible_eq (·.context.results) fun _ => rfl
  have hattached : f.context.attached = g.context.attached :=
    h.visible_eq (·.context.attached) fun _ => rfl
  have hlookup := (h.table rfl).lookup_eq
  unfold finishedResults
  rw [List.map_map, List.map_map, ← hresults, ← hattached]
  refine List.map_congr_left fun r _ => ?_
  cases r with
  | snapshot s =>
      simp only [Function.comp, ActionResult.apparent, apparent_finished, hlookup]
  | _ => rfl

/-- Contexts that are alike in the exact view are closed to states of one appearance. -/
theorem Alike.close_apparent
    (h : f.Alike true R g)
    (hf : f.context.state ≠ .closed)
    (hg : g.context.state ≠ .closed) :
    (f.close c AgentState.deliverInside).agent.apparent =
      (g.close c AgentState.deliverInside).agent.apparent := by
  have hclosing := h.enter .closing .closing
  have hresults : (f.enter .closing).context.results = (g.enter .closing).context.results :=
    hclosing.visible_eq (·.context.results) fun _ => rfl
  have hid : (f.enter .closing).context.id = (g.enter .closing).context.id := hclosing.id_eq
  have hagent : (f.enter .closing).agent.apparent = (g.enter .closing).agent.apparent :=
    hclosing.visible_eq (·.agent.apparent) fun _ => rfl
  have hclock : ((f.enter .closing).agent.readClock c).1 =
      ((g.enter .closing).agent.readClock c).1 :=
    hclosing.visible_eq (fun f => (f.agent.readClock c).1) fun _ => rfl
  have hread : ((f.enter .closing).agent.readClock c).2.apparent =
      ((g.enter .closing).agent.readClock c).2.apparent :=
    hclosing.visible_eq (fun f => (f.agent.readClock c).2.apparent) fun _ => rfl
  unfold close
  rw [if_neg hf, if_neg hg]
  unfold deliverResults
  rw [hresults]
  split
  · exact hagent
  · change (AgentState.deliverAll _ _ _ _ _).apparent = (AgentState.deliverAll _ _ _ _ _).apparent
    rw [AgentState.apparent_deliverAll, AgentState.apparent_deliverAll, hid, hclock, hread,
      hclosing.finishedResults_eq]

/-- The end of a context tells its messages, in their order. -/
theorem told_close
    (hf : f.context.state ≠ .closed) :
    (f.close c AgentState.deliverInside).agent.told =
      (f.context.results.filterMap ActionResult.message?).foldl (AgentState.tell f.context.id)
        f.agent.told := by
  have hmessages : ∀ now, (finishedResults f.context now).filterMap ActionResult.message? =
      f.context.results.filterMap ActionResult.message? := by
    intro now
    unfold finishedResults
    rw [List.filterMap_map]
    refine List.filterMap_congr fun r _ => ?_
    cases r <;> rfl
  unfold close
  rw [if_neg hf]
  unfold deliverResults
  split
  · next hresults =>
      have hnone : f.context.results = [] := List.isEmpty_iff.1 hresults
      rw [hnone]
      rfl
  · change (AgentState.deliverAll _ _ _ _ _).told = _
    rw [AgentState.told_deliverAll]
    exact congrArg (fun ms => List.foldl _ _ ms) (hmessages _)

/-- What is seen from outside keeps the messages. -/
theorem messages_outward
    (f : Firing) :
    f.outward.context.results.filterMap ActionResult.message? =
      f.context.results.filterMap ActionResult.message? := by
  change (f.context.results.filter ActionResult.isMessage).filterMap _ = _
  rw [List.filterMap_filter]
  refine List.filterMap_congr fun r _ => ?_
  cases r <;> rfl

/-- Contexts that are alike in the rough view are closed to states that have told the same. -/
theorem Alike.close_told
    (h : f.Alike false R g)
    (hf : f.context.state ≠ .closed)
    (hg : g.context.state ≠ .closed) :
    (f.close c AgentState.deliverInside).agent.told =
      (g.close c AgentState.deliverInside).agent.told := by
  have htold : f.agent.told = g.agent.told :=
    h.field_eq (·.agent.told) (fun _ => rfl) (fun _ => rfl)
  have hmessages : f.context.results.filterMap ActionResult.message? =
      g.context.results.filterMap ActionResult.message? :=
    h.field_eq (fun f => f.context.results.filterMap ActionResult.message?) (fun _ => rfl)
      messages_outward
  rw [told_close hf, told_close hg, h.id_eq, htold, hmessages]

end Firing
end LiveProbe
