import Mathlib.Tactic.Tauto
import LiveProbe.Agent.Hook

/-!
# What delivery changes

The delivery of results, with all that a collaborator does on its occasion.

**Specification.**  A delivery leaves alone what may fire and what is on record of it,
and hands over no snapshots but those among the results (`AgentState.Delivers`).

**Results.**
* `delivers_begin?`: a context begins without delivering anything.
* `delivers_deliver`, `delivers_deliverAll`: every result is delivered in this sense,
  whatever becomes of it.
* `delivers_close`: a context hands over its finished snapshots.
-/

namespace LiveProbe

/-! ### Tasks of the pool -/

namespace TaskPool

variable {τ : Type} {p : TaskPool τ} {x : τ}

/-- All tasks that the pool took. -/
def tasks (p : TaskPool τ) : List τ := p.waiting ++ p.running ++ p.finished

/-- A pool has no tasks but those that it had and the one that is handed in. -/
theorem mem_tasks_submit
    {task : τ}
    (hx : x ∈ (p.submit task).2.tasks) :
    x ∈ p.tasks ∨ x = task := by
  unfold submit at hx
  split at hx
  · exact Or.inl hx
  · split at hx
    · exact Or.inl hx
    · simp only [tasks, List.mem_append, List.mem_singleton] at hx ⊢
      tauto

theorem mem_tasks_take?
    {q : TaskPool τ}
    (hq : p.take? = some q)
    (hx : x ∈ q.tasks) :
    x ∈ p.tasks := by
  unfold take? at hq
  split at hq
  · cases hq
  · next task rest hwaiting =>
      split at hq
      · rw [← Option.some.inj hq] at hx
        simp only [tasks, hwaiting, List.mem_append, List.mem_cons, List.not_mem_nil, or_false]
          at hx ⊢
        tauto
      · cases hq

theorem mem_tasks_enqueue
    {task : τ}
    (hx : x ∈ (p.enqueue task).2.tasks) :
    x ∈ p.tasks ∨ x = task := by
  refine mem_tasks_submit (p := p) ?_
  simp only [enqueue] at hx
  rcases htake : (p.submit task).2.take? with _ | later <;> rw [htake] at hx
  · exact hx
  · exact mem_tasks_take? htake hx

end TaskPool

/-! ### Frame of a delivery -/

/-- The actions that a callback runs. -/
def DeferredCallback.actions (callback : DeferredCallback) : List Action :=
  match callback.payload with
  | .closeSpans _ => []
  | .runActions actions => actions

/-- The snapshot of a result. -/
def ActionResult.snapshots : ActionResult → List Snapshot
  | .snapshot s => [s]
  | _ => []

namespace AgentState

/-- The actions that wait for an event. -/
def waiting (s : AgentState) : List Action :=
  s.callbacks.pending.flatMap DeferredCallback.actions

/-- The snapshots that the push service was handed: those that it was called with, or
those that the pool took. -/
def handed (s : AgentState) : List Snapshot := s.journal.snapshots.toList ++ s.pool.tasks

/-- Neither the record of firings changed nor what may fire next, and no snapshots were
handed over but those that are given. -/
structure Delivers (s : AgentState) (snapshots : List Snapshot) (s' : AgentState) : Prop where
  ledger : s'.ledger = s.ledger
  index : s'.index = s.index
  waiting : s'.waiting = s.waiting
  handed : ∀ x ∈ s'.handed, x ∈ s.handed ∨ x ∈ snapshots

section Delivers

variable {s t u : AgentState} {snapshots more : List Snapshot}

theorem delivers_refl
    (s : AgentState) (snapshots : List Snapshot) :
    s.Delivers snapshots s :=
  ⟨rfl, rfl, rfl, fun _ hx => Or.inl hx⟩

theorem Delivers.trans
    (h : s.Delivers snapshots t)
    (h' : t.Delivers snapshots u) :
    s.Delivers snapshots u := by
  refine ⟨h'.ledger.trans h.ledger, h'.index.trans h.index, h'.waiting.trans h.waiting, ?_⟩
  intro x hx
  rcases h'.handed x hx with hbefore | hgiven
  · exact h.handed x hbefore
  · exact Or.inr hgiven

theorem Delivers.mono
    (h : s.Delivers snapshots t)
    (hsub : snapshots ⊆ more) :
    s.Delivers more t :=
  ⟨h.ledger, h.index, h.waiting, fun x hx => (h.handed x hx).imp_right fun hgiven => hsub hgiven⟩

end Delivers

variable (c : Collaborators)

/-- An answer of a collaborator hands nothing over. -/
theorem delivers_react
    (reaction : Reaction) (s : AgentState) (snapshots : List Snapshot) :
    s.Delivers snapshots (s.react c deliverInside reaction).2 := by
  cases reaction <;> exact ⟨rfl, rfl, rfl, fun _ hx => Or.inl hx⟩

/-- A push hands over the snapshot and nothing else. -/
theorem delivers_pushSnapshot
    (snapshot : Snapshot) (s : AgentState) :
    s.Delivers [snapshot] (s.pushSnapshot c deliverInside snapshot).2 := by
  unfold pushSnapshot
  split
  · refine Delivers.trans ?_ (delivers_react c _ _ _)
    refine ⟨rfl, rfl, rfl, fun x hx => ?_⟩
    simp only [handed, Journal.keep, Array.toList_push, List.mem_append] at hx ⊢
    tauto
  · rcases hanswer : s.pool.enqueue snapshot with ⟨answer, pool⟩
    have hpool : ∀ x ∈ pool.tasks, x ∈ s.pool.tasks ∨ x = snapshot := by
      intro x hx
      exact TaskPool.mem_tasks_enqueue (by rw [hanswer]; exact hx)
    have htaken : s.Delivers [snapshot] { s with pool := pool } := by
      refine ⟨rfl, rfl, rfl, fun x hx => ?_⟩
      rcases List.mem_append.1 hx with hcalled | htask
      · exact Or.inl (List.mem_append_left _ hcalled)
      · rcases hpool x htask with hold | hnew
        · exact Or.inl (List.mem_append_right _ hold)
        · exact Or.inr (List.mem_singleton.2 hnew)
    cases answer with
    | ok _ => exact htaken
    | error _ => exact htaken

theorem delivers_closeSpans
    (handles : List SpanHandle) (s : AgentState) (snapshots : List Snapshot) :
    s.Delivers snapshots (closeSpans c handles s).2 := by
  induction handles generalizing s with
  | nil =>
      exact s.delivers_refl snapshots
  | cons handle rest ih =>
      have hclosed : s.Delivers snapshots { s with journal := s.journal.span (.closed handle) } :=
        ⟨rfl, rfl, rfl, fun _ hx => Or.inl hx⟩
      unfold closeSpans
      dsimp only
      split
      · exact hclosed
      · exact hclosed.trans (ih _)

/-- A delivery hands over the snapshot of its result, if it is one. -/
theorem delivers_deliver
    (context : UInt64) (r : ActionResult) (s : AgentState) :
    s.Delivers r.snapshots (s.deliver c deliverInside context r).2 := by
  cases r with
  | log tracepoint message =>
      have hlogged :
          s.Delivers [] { s with journal := s.journal.log ⟨message, tracepoint, context⟩ } :=
        ⟨rfl, rfl, rfl, fun _ hx => Or.inl hx⟩
      exact hlogged.trans (delivers_react c _ _ _)
  | snapshot snapshot =>
      exact delivers_pushSnapshot c snapshot s
  | metric tracepoint =>
      exact s.delivers_refl _
  | span tracepoint handles location =>
      cases location with
      | some location =>
          -- A callback that closes spans runs no actions.
          refine ⟨rfl, rfl, ?_, fun _ hx => Or.inl hx⟩
          simp [deliver, deferClose, waiting, CallbackRegistry.register,
            CallbackRegistry.ofPending, DeferredCallback.actions]
      | none =>
          have hclose := delivers_closeSpans c handles s []
          rcases hrun : closeSpans c handles s with ⟨_ | _, closed⟩ <;>
            rw [hrun] at hclose <;>
            simp only [deliver, hrun] <;>
            exact hclose

theorem delivers_reportDelivery
    (outcome : DeliveryOutcome) (s : AgentState) (snapshots : List Snapshot) :
    s.Delivers snapshots (s.reportDelivery outcome) := by
  cases outcome <;> exact ⟨rfl, rfl, rfl, fun _ hx => Or.inl hx⟩

/-- Deliveries hand over the snapshots of their results. -/
theorem delivers_deliverAll
    (context : UInt64) (results : List ActionResult) (s : AgentState) :
    s.Delivers (results.flatMap ActionResult.snapshots)
      (s.deliverAll c deliverInside context results) := by
  induction results generalizing s with
  | nil =>
      exact s.delivers_refl _
  | cons r rest ih =>
      rw [List.flatMap_cons]
      have hfirst := (delivers_deliver c context r s).trans
        (delivers_reportDelivery (s.deliver c deliverInside context r).1 _ _)
      exact (hfirst.mono (List.subset_append_left _ _)).trans
        ((ih _).mono (List.subset_append_right _ _))

end AgentState

/-! ### Contexts -/

namespace Firing

/-- The beginning of a context hands nothing over. -/
theorem delivers_begin?
    {c : Collaborators} {event : TraceEvent} {frame : HostFrame} {actions : List Action}
    {s : AgentState} {f : Firing}
    (hf : begin? c event frame actions s = some f) :
    s.Delivers [] f.agent := by
  simp only [begin?, Option.map_eq_some_iff] at hf
  obtain ⟨_, _, rfl⟩ := hf
  exact ⟨rfl, rfl, rfl, fun _ hx => Or.inl hx⟩

/-- The end of a context hands over its finished snapshots only. -/
theorem delivers_close
    (c : Collaborators) (f : Firing) :
    ∃ now, f.agent.Delivers ((finishedResults f.context now).flatMap ActionResult.snapshots)
      (f.close c AgentState.deliverInside).agent := by
  unfold close
  split
  · exact ⟨0, f.agent.delivers_refl _⟩
  · unfold deliverResults
    split
    · exact ⟨0, f.agent.delivers_refl _⟩
    · refine ⟨_, AgentState.Delivers.trans ?_ (AgentState.delivers_deliverAll c _ _ _)⟩
      exact ⟨rfl, rfl, rfl, fun _ hx => Or.inl hx⟩

/-- Collaborators without plugins that answer every call; expressions are names. -/
def plainCollaborators : Collaborators where
  evaluate := fun name bindings heap =>
    match bindings.get? name with
    | some r => .value r heap
    | none => .fault (.unknownName name)
  push := .direct fun _ => .done
  logger := fun _ => .done
  plugins := .empty
  resource := .empty
  inApp := ⟨[], [], none⟩
  captureDefaults := .standard
  clock := fun reading => reading
  budget := fun _ limit => .ofMillis limit
  snapshotId := fun capture => capture
  reentry := fun _ => (.line, ⟨⟨"", "", 0, 0, none, none, false, none⟩, []⟩)

end Firing
end LiveProbe
