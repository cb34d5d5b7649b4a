import LiveProbe.Proofs.Agent.Handing
import LiveProbe.Proofs.Trigger.Matching

/-!
# Detaching

What an event loses that the hook does not dispatch.

**Shortcuts.**  Before a dispatch the hook asks for the number of callbacks and for the bucket
of the file only.  Triggers stand in the buckets of their own files
(`TriggerIndex.IsFiled`), and callbacks are counted, so both tell enough.

**Invariant.**  A file without a bucket stays without callbacks: only events in files with a
bucket, and callbacks of the same activation, leave any (`AgentState.Ignores`).

**Results.**
* `isFiled_insert`, `isFiled_rebuild`: indices are filed, however they are made.
* `isHit_eq_false_of_isFiled`: without a bucket for the file no trigger is hit.
* `ignores_after`, `idle_of_ignores`: a file that is ignored stays so until the next
  configuration, and its events do nothing.
* `shortcuts_unobservable`: an enabled hook does what the dispatch of each event would do, and
  where it detaches nothing is lost.
-/

namespace LiveProbe

namespace TriggerIndex

/-! ### Filed triggers -/

/-- Every trigger stands in the bucket of its file. -/
def IsFiled (index : TriggerIndex) : Prop :=
  ∀ b ∈ index.buckets, ∀ t ∈ b.2, t.location.fileName = b.1

theorem isFiled_empty : empty.IsFiled := by
  simp [IsFiled, empty]

/-- Triggers that are merged into a bucket have the file name of the bucket. -/
theorem fileName_addTo
    {t : Trigger} {us : List Trigger}
    (hus : ∀ u ∈ us, u.location.fileName = t.location.fileName) :
    ∀ u ∈ addTo t us, u.location.fileName = t.location.fileName := by
  have hlocations : ∀ l ∈ (addTo t us).map Trigger.location, l.fileName = t.location.fileName := by
    rw [map_location_addTo]
    split
    · simpa using hus
    · simpa [or_imp, forall_and] using hus
  simpa using hlocations

/-- Insertion files a trigger under its own file name. -/
theorem isFiled_insert
    {index : TriggerIndex}
    (h : index.IsFiled)
    (t : Trigger) :
    (index.insert t).IsFiled := by
  unfold IsFiled insert at *
  dsimp only
  generalize index.buckets = bs at h
  induction bs with
  | nil => simp [addIn]
  | cons b bs ih =>
      rw [List.forall_mem_cons] at h
      unfold addIn
      split
      · next hb =>
          rw [hb] at h
          exact List.forall_mem_cons.2 ⟨fileName_addTo h.1, h.2⟩
      · exact List.forall_mem_cons.2 ⟨h.1, ih h.2⟩

/-- An index that is built from tracepoints is filed. -/
theorem isFiled_build
    (key : Nat) (tps : List Tracepoint) :
    (build key tps).IsFiled :=
  fun b hb => ((placed_build key tps).buckets b hb).file

theorem isFiled_rebuild
    (ledger : FireLedger) (tps : List Tracepoint) (previous : TriggerIndex) :
    (rebuild ledger tps previous).1.IsFiled :=
  isFiled_build ledger.next tps

/-- Without a bucket for the file no trigger is hit, whatever the event. -/
theorem isHit_eq_false_of_isFiled
    {index : TriggerIndex}
    (h : index.IsFiled)
    {file : String}
    (hfile : index.hasFile file = false)
    {t : Trigger}
    (ht : t ∈ index.triggers)
    (event : TraceEvent) (line : UInt32) (function : String) :
    t.location.isHit event file line function = false := by
  rw [← Bool.not_eq_true]
  intro hhit
  obtain ⟨b, hb, htb⟩ := List.mem_flatMap.1 ht
  have hbucket : b.1 = Path.baseName file :=
    (h b hb t htb).symm.trans (Location.fileName_of_isHit hhit)
  rw [hasFile, ← hbucket, Option.isSome_eq_false_iff, Option.isNone_iff_eq_none,
    List.lookup_eq_none_iff] at hfile
  simpa using hfile b hb

/-- Only the last component of a path counts for the test. -/
theorem hasFile_congr
    {file other : String}
    (hsame : Path.baseName other = Path.baseName file)
    (index : TriggerIndex) :
    index.hasFile other = index.hasFile file := by
  rw [hasFile, hasFile, hsame]

end TriggerIndex

namespace CallbackRegistry

/-- A registry without matching callbacks stays as it is. -/
theorem takeMatching_of_none
    {r : CallbackRegistry}
    (hcounted : r.IsCounted)
    {event : TraceEvent} {frame : HostFrame}
    (hnone : ∀ callback ∈ r.pending, callback.location.matches event frame = false) :
    r.takeMatching event frame = ([], r) := by
  have htaken : r.pending.filter (fun callback => callback.location.matches event frame) = [] :=
    List.filter_eq_nil_iff.2 fun callback hcallback => by simp [hnone callback hcallback]
  have hleft : r.pending.filter (fun callback => !callback.location.matches event frame) =
      r.pending :=
    List.filter_eq_self.2 fun callback hcallback => by simp [hnone callback hcallback]
  unfold takeMatching
  split
  · rfl
  · simp only [List.partition_eq_filter_filter, htaken, Function.comp_def, hleft]
    rw [ofPending, ← hcounted]

end CallbackRegistry

/-- A callback waits for an event in its own file. -/
theorem CallbackLocation.file_of_matches
    {l : CallbackLocation} {event : TraceEvent} {frame : HostFrame}
    (h : l.matches event frame = true) :
    l.file = frame.top.file := by
  rw [CallbackLocation.matches, Bool.and_eq_true, isOf, Bool.and_eq_true, beq_iff_eq] at h
  exact h.1.2

namespace AgentState

/-! ### Files without triggers -/

/-- There are neither triggers nor callbacks for the name of a file. -/
structure Ignores (file : String) (s : AgentState) : Prop where
  enabled : s.enabled = true
  counted : s.callbacks.IsCounted
  unindexed : s.index.hasFile file = false
  pending : ∀ callback ∈ s.callbacks.pending,
    Path.baseName callback.location.file ≠ Path.baseName file

section Ignores

variable (c : Collaborators) (event : TraceEvent) (frame : HostFrame)
  {file : String} {s : AgentState}

/-- Events in a file that is ignored do nothing. -/
theorem idle_of_ignores
    (hs : s.Ignores file)
    (hframe : Path.baseName frame.top.file = Path.baseName file) :
    (s.traceCall c event frame).2 = s ∧ s.handedOn c event frame = [] ∧
      s.firedOn c event frame = [] := by
  have htake : s.callbacks.takeMatching event frame = ([], s.callbacks) := by
    refine CallbackRegistry.takeMatching_of_none hs.counted fun callback hcallback => ?_
    rw [← Bool.not_eq_true]
    intro hmatches
    have hfile := CallbackLocation.file_of_matches hmatches
    exact hs.pending callback hcallback (by rw [hfile, hframe])
  have hfile : s.index.hasFile frame.top.file = false :=
    (TriggerIndex.hasFile_congr hframe s.index).trans hs.unindexed
  obtain ⟨hstate, hhanded, hfired⟩ := traceCall_eq_dispatched c event frame hs.enabled
  rw [hstate, hhanded, hfired]
  exact dispatch_of_idle c event frame htake hfile

/-- An event in a file of another name leaves no callbacks for this one. -/
theorem ignores_traceCall
    (hs : s.Ignores file) :
    (s.traceCall c event frame).2.Ignores file := by
  by_cases hframe : Path.baseName frame.top.file = Path.baseName file
  · rw [(idle_of_ignores c event frame hs hframe).1]
    exact hs
  · rw [(traceCall_eq_dispatched c event frame hs.enabled).1]
    obtain ⟨deferred, hregisters⟩ := registers_dispatched c event frame s
    obtain ⟨more, hpending, hown, -⟩ := hregisters.pending
    refine ⟨hregisters.enabled.trans hs.enabled, ?_, ?_, ?_⟩
    · exact hregisters.counted (CallbackRegistry.count_takeMatching hs.counted event frame)
    · rw [hregisters.index]
      exact hs.unindexed
    · intro callback hcallback
      rw [hpending] at hcallback
      rcases List.mem_append.1 hcallback with hold | hnew
      · have hleft := (CallbackRegistry.takeMatching_of_isCounted hs.counted event frame).2
        exact hs.pending callback (List.mem_of_mem_filter (hleft ▸ hold))
      · obtain ⟨kind, hlocation⟩ := hown callback hnew
        rw [hlocation]
        exact hframe

/-- A file that is ignored stays so until the next configuration. -/
theorem ignores_after
    (hs : s.Ignores file)
    {steps : List HookStep}
    (hsteps : HookStep.configs steps = []) :
    (steps.foldl (after c) s).Ignores file := by
  induction steps generalizing s with
  | nil => exact hs
  | cons step rest ih =>
      cases step with
      | update tps => simp [HookStep.configs] at hsteps
      | event heap event frame =>
          have hheap : { s with heap := heap }.Ignores file :=
            ⟨hs.enabled, hs.counted, hs.unindexed, hs.pending⟩
          exact ih (ignores_traceCall c event frame hheap) hsteps

end Ignores

/-! ### Shortcuts -/

/-- Whatever an enabled hook is told, its triggers stay filed. -/
theorem isFiled_after
    {s : AgentState}
    (henabled : s.enabled = true)
    (hindex : s.index.IsFiled)
    (c : Collaborators) (step : HookStep) :
    (s.after c step).index.IsFiled := by
  cases step with
  | event heap event frame =>
      have hstate := (traceCall_eq_dispatched c event frame (s := { s with heap := heap })
        henabled).1
      obtain ⟨deferred, hregisters⟩ := registers_dispatched c event frame { s with heap := heap }
      rw [after, hstate, hregisters.index]
      exact hindex
  | update tps =>
      rw [after, (newConfig_eq tps s).1]
      exact TriggerIndex.isFiled_build _ _

/-- Only an event that is not dispatched is answered so. -/
theorem shortcut?_of_detach
    {s : AgentState} {c : Collaborators} {event : TraceEvent} {frame : HostFrame}
    (hdetach : (s.traceCall c event frame).1 = .detach) :
    s.shortcut? event frame = some .detach := by
  unfold traceCall at hdetach
  cases hshortcut : s.shortcut? event frame with
  | some answer =>
      rw [hshortcut] at hdetach
      exact congrArg some hdetach
  | none =>
      rw [hshortcut] at hdetach
      dsimp only at hdetach
      split at hdetach <;> cases hdetach

/-- An enabled hook does what the dispatch of each event would do, and where it detaches
nothing is lost. -/
theorem shortcuts_unobservable
    {s : AgentState}
    (henabled : s.enabled = true)
    (c : Collaborators) (event : TraceEvent) (frame : HostFrame) :
    (s.traceCall c event frame).2 = s.dispatched c event frame ∧
      s.handedOn c event frame = s.handedInDispatch c event frame ∧
      s.firedOn c event frame = s.firedInDispatch c event frame ∧
      (s.index.IsFiled → s.callbacks.IsCounted → (s.traceCall c event frame).1 = .detach →
        s.callbacks.pending = [] ∧
          (∀ t ∈ s.index.triggers,
            ∀ (other : TraceEvent) (file : String) (line : UInt32) (function : String),
              Path.baseName file = Path.baseName frame.top.file →
                t.location.isHit other file line function = false) ∧
          ∀ (steps : List HookStep), HookStep.configs steps = [] →
            ∀ (heap : Heap) (other : TraceEvent) (later : HostFrame),
              Path.baseName later.top.file = Path.baseName frame.top.file →
              let t := { steps.foldl (after c) s with heap := heap }
              (t.traceCall c other later).2 = t ∧ t.firedOn c other later = []) := by
  obtain ⟨hstate, hhanded, hfired⟩ := traceCall_eq_dispatched c event frame henabled
  refine ⟨hstate, hhanded, hfired, fun hindex hcallbacks hdetach => ?_⟩
  obtain ⟨hempty, hfile⟩ :=
    idle_of_shortcut? event frame henabled (shortcut?_of_detach hdetach)
  have hnone := CallbackRegistry.pending_of_isEmpty hcallbacks hempty
  refine ⟨hnone, ?_, ?_⟩
  · intro t ht other file line function hname
    have hunindexed : s.index.hasFile file = false :=
      (TriggerIndex.hasFile_congr hname s.index).trans hfile
    exact TriggerIndex.isHit_eq_false_of_isFiled hindex hunindexed ht other line function
  · intro steps hsteps heap other later hlater t
    have hs : s.Ignores frame.top.file := by
      refine ⟨henabled, hcallbacks, hfile, ?_⟩
      rw [hnone]
      simp
    have hrun := ignores_after c hs hsteps
    have ht : t.Ignores frame.top.file :=
      ⟨hrun.enabled, hrun.counted, hrun.unindexed, hrun.pending⟩
    obtain ⟨hidle, -, hsilent⟩ := idle_of_ignores c other later ht hlater
    exact ⟨hidle, hsilent⟩

/-- The hook with one message at a line of another file. -/
def elsewhere : AgentState :=
  { initial .empty (.ofSize 1 1) with
    index := .build 0 [⟨"tp", "app/other.py", 3, .ofList [("log_msg", "hit")], [], []⟩] }

/-- A call into a file without triggers detaches, and a line of it that comes later finds
nothing. -/
theorem shortcuts_unobservable_elsewhere :
    let c := Firing.plainCollaborators
    let frame (line : UInt32) : HostFrame :=
      ⟨⟨"/srv/app/handler.py", "handle", line, 1, some [], none, false, none⟩, []⟩
    elsewhere.enabled = true ∧ elsewhere.index.IsFiled ∧ elsewhere.callbacks.IsCounted ∧
      elsewhere.index.triggers.length = 1 ∧
      (elsewhere.traceCall c .call (frame 1)).1 = .detach ∧
      let t := { [.event .empty .line (frame 2)].foldl (after c) elsewhere with heap := .empty }
      (t.traceCall c .line (frame 3)).2 = t ∧ t.firedOn c .line (frame 3) = [] := by
  intro c frame
  have hindex : elsewhere.index.IsFiled := TriggerIndex.isFiled_build _ _
  have hdetach : (elsewhere.traceCall c .call (frame 1)).1 = .detach := by decide +kernel
  obtain ⟨-, -, hlater⟩ :=
    (shortcuts_unobservable rfl c .call (frame 1)).2.2.2 hindex rfl hdetach
  exact ⟨rfl, hindex, rfl, by decide +kernel, hdetach,
    hlater [.event .empty .line (frame 2)] rfl .empty .line (frame 3) rfl⟩

end AgentState
end LiveProbe
