import Mathlib
import LiveProbe.Agent.Hook
import LiveProbe.Proofs.Capture.Merging
import LiveProbe.Proofs.Context.Apparent
import LiveProbe.Proofs.Context.Idle

/-!
# Silent tracepoints

Tracepoints that do not fire at an event, and what the others tell beside them.

**Input.**  Any event and any matched actions, in any state without dangling references, and
any evaluator that does not look at identities.

**Silence.**  An action is audible if some action of its tracepoint is not idle at its turn
(`Firing.isAudible`); the others belong to silent tracepoints.

**Results.**
* `apparent_runActions`: silent tracepoints lend their bounds to the capture and have no
  other influence.
* `silent_interfere_by_bounds`: messages and metric emissions are those of the run without
  the silent tracepoints, and so is all else if these do not widen the bounds.
* `silent_lends_depth`: lent bounds do show in a snapshot.

**Imports.**  The closed runs at the end are evaluated by equations, also of functions of the
library.  Those of `StateT.pure` and `StateT.set` would be generated here, under the names of
the library, if it were not imported whole.
-/

namespace LiveProbe

/-! ### Contexts under given bounds -/

namespace Firing

/-- The context that begins under given bounds. -/
def begun (c : Collaborators) (config : CaptureConfig) (event : TraceEvent) (frame : HostFrame)
    (bindings : Bindings) (s : AgentState) : Firing :=
  let (id, contexts) := s.contexts.next
  let (ts, s) := { s with contexts := contexts }.readClock c
  let context : TriggerContext :=
    { id := id
      ts := ts
      event := event
      frame := frame
      bindings := bindings
      config := config
      capture := ⟨.empty, c.budget id config.maxProcessTimeMs⟩
      frames := none
      results := []
      attached := []
      state := .opened }
  ⟨context, s⟩

/-- Some action of the same tracepoint is not idle at its turn. -/
def isAudible (c : Collaborators) (actions : List Action) (f : Firing) (a : Action) : Bool :=
  (f.turns c actions).any fun t => t.1.tracepoint.id == a.tracepoint.id && !t.2.isIdle c t.1

end Firing

/-- The locals of the activation and of its callers are live. -/
def HostFrame.LivesIn (frame : HostFrame) (h : Heap) : Prop :=
  ∀ a ∈ frame.stack, ∀ locals, a.locals = some locals → ∀ p ∈ locals, p.2 < h.size

namespace AgentState

/-- The bounds of a capture for actions. -/
def bounds (c : Collaborators) (actions : List Action) : CaptureConfig :=
  .merged c.captureDefaults (actions.map Action.tracepoint)

/-- Runs actions in a context of their own under given bounds. -/
def runWithin (c : Collaborators) (config : CaptureConfig) (event : TraceEvent)
    (frame : HostFrame) (actions : List Action) (s : AgentState) : AgentState :=
  match frame.bindings? with
  | none => s
  | some bindings =>
      (((Firing.begun c config event frame bindings s).process c actions).2.close c
        deliverInside).agent

/-- The actions of tracepoints that are not silent. -/
def audible (c : Collaborators) (event : TraceEvent) (frame : HostFrame) (actions : List Action)
    (s : AgentState) : List Action :=
  match Firing.begin? c event frame actions s with
  | none => actions
  | some f => actions.filter (f.isAudible c actions)

variable {c : Collaborators} {event : TraceEvent} {frame : HostFrame} {actions : List Action}
  {s : AgentState} {bindings : Bindings}

/-- With locals, a context begins under the merged bounds of its actions. -/
theorem begin?_eq
    (actions : List Action)
    (hbindings : frame.bindings? = some bindings) :
    Firing.begin? c event frame actions s =
      some (Firing.begun c (bounds c actions) event frame bindings s) := by
  unfold Firing.begin?
  rw [hbindings]
  rfl

/-- The actions run under the bounds that are merged over all of them. -/
theorem runActions_eq
    (actions : List Action) :
    (s.runActions c event frame actions).2 =
      s.runWithin c (bounds c actions) event frame actions := by
  unfold runActions runWithin
  cases hbindings : frame.bindings? with
  | none =>
      unfold Firing.begin?
      rw [hbindings]
      rfl
  | some bindings =>
      rw [begin?_eq actions hbindings]

/-- Contexts that begin in one state are alike, in the exact view if their bounds are the
same. -/
theorem alike_begun
    {exact : Bool} {config config' : CaptureConfig}
    (hheap : s.heap.IsClosed)
    (hframe : frame.LivesIn s.heap)
    (hbindings : frame.bindings? = some bindings)
    (hconfig : exact = true → config = config') :
    (Firing.begun c config event frame bindings s).Alike exact s.heap.Same
      (Firing.begun c config' event frame bindings s) where
  heap := .refl hheap
  view := by
    cases exact with
    | true => rw [hconfig rfl]
    | false => rfl
  table _ := .empty
  bindings p hp := by
    obtain ⟨locals, hlocals, rfl⟩ := Option.map_eq_some_iff.1 hbindings
    exact ⟨rfl, hframe frame.top List.mem_cons_self locals hlocals p hp⟩
  stack a ha locals hlocals p hp := ⟨rfl, hframe a ha locals hlocals p hp⟩

theorem open_process
    {f : Firing}
    (hf : f.context.state = .opened)
    (actions : List Action) :
    (f.process c actions).2.context.state ≠ .closed :=
  (Firing.opens_process c actions f).closing (by rw [hf]; decide)

/-- What is not audible is idle at its turn. -/
theorem idle_of_silent
    {f : Firing} {t : Action × Firing}
    (ht : t ∈ f.turns c actions)
    (hsilent : f.isAudible c actions t.1 = false) :
    t.2.isIdle c t.1 = true := by
  rw [Firing.isAudible, List.any_eq_false] at hsilent
  simpa using hsilent t ht

/-- Under the bounds of all matched actions silent tracepoints have no influence. -/
theorem apparent_runActions
    (hc : IsUniform c.evaluate)
    (hheap : s.heap.IsClosed)
    (hframe : frame.LivesIn s.heap) :
    (s.runActions c event frame actions).2.apparent =
      (s.runWithin c (bounds c actions) event frame
        (s.audible c event frame actions)).apparent := by
  rw [runActions_eq]
  unfold runWithin audible
  cases hbindings : frame.bindings? with
  | none => rfl
  | some bindings =>
      rw [begin?_eq actions hbindings]
      have hbegun : (Firing.begun c (bounds c actions) event frame bindings s).Alike true
          s.heap.Same (Firing.begun c (bounds c actions) event frame bindings s) :=
        alike_begun hheap hframe hbindings fun _ => rfl
      obtain ⟨S, _, hprocessed⟩ := hbegun.process_filter hc
        (fun t ht => idle_of_silent ht) (.inl rfl)
      exact hprocessed.close_apparent (open_process rfl _) (open_process rfl _)

/-- Messages and metric emissions do not depend on the bounds of the capture. -/
theorem told_runActions
    (hc : IsUniform c.evaluate)
    (hheap : s.heap.IsClosed)
    (hframe : frame.LivesIn s.heap)
    (hkeys : (actions.map Action.key).Nodup) :
    (s.runActions c event frame actions).2.told =
      (s.runActions c event frame (s.audible c event frame actions)).2.told := by
  rw [runActions_eq, runActions_eq]
  unfold runWithin audible
  cases hbindings : frame.bindings? with
  | none => rfl
  | some bindings =>
      rw [begin?_eq actions hbindings]
      dsimp only
      generalize bounds c (actions.filter _) = config
      have hbegun : (Firing.begun c (bounds c actions) event frame bindings s).Alike false
          s.heap.Same (Firing.begun c config event frame bindings s) :=
        alike_begun hheap hframe hbindings fun h => by cases h
      obtain ⟨S, _, hprocessed⟩ := hbegun.process_filter hc
        (fun t ht => idle_of_silent ht) (.inr ⟨hkeys, fun _ _ => rfl⟩)
      exact hprocessed.close_told (open_process rfl _) (open_process rfl _)

theorem audible_subset
    (actions : List Action) :
    s.audible c event frame actions ⊆ actions := by
  unfold audible
  cases Firing.begin? c event frame actions s with
  | none => exact List.Subset.refl actions
  | some f => exact List.filter_subset_self actions

/-- Silent tracepoints do not narrow the bounds of the others. -/
theorem bounds_audible
    (haudible : s.audible c event frame actions ≠ []) :
    (bounds c (s.audible c event frame actions)).IsWithin (bounds c actions) :=
  CaptureConfig.merged_isWithin_merged (fun h => haudible (List.map_eq_nil_iff.1 h))
    (List.map_subset Action.tracepoint (audible_subset actions))

/-- Of silent tracepoints the others feel the bounds alone, which get wider if they change.
Messages and metric emissions are those of the run without them; all else is that of the run
without them under the bounds of all, and no other if these are the bounds of the others. -/
theorem silent_interfere_by_bounds
    (hc : IsUniform c.evaluate)
    (hheap : s.heap.IsClosed)
    (hframe : frame.LivesIn s.heap)
    (hkeys : (actions.map Action.key).Nodup) :
    let others := s.audible c event frame actions
    let beside := (s.runActions c event frame actions).2
    let alone := (s.runActions c event frame others).2
    let lent := s.runWithin c (bounds c actions) event frame others
    beside.told = alone.told ∧
      beside.apparent = lent.apparent ∧
      (others ≠ [] → (bounds c others).IsWithin (bounds c actions)) ∧
      (bounds c actions = bounds c others → beside.apparent = alone.apparent) := by
  intro others beside alone lent
  have hlent : beside.apparent = lent.apparent := apparent_runActions hc hheap hframe
  refine ⟨told_runActions hc hheap hframe hkeys, hlent, bounds_audible, fun hbounds => ?_⟩
  rw [hlent]
  unfold alone lent
  rw [runActions_eq, hbounds]

/-! ### Bounds of an action that is spent -/

/-- Lists within lists, down to a number. -/
def nestedHeap : Heap :=
  ⟨#[.list [1], .list [2], .list [3], .list [4], .list [5], .int 7]⟩

/-- A frame with the outermost list as its only local. -/
def nestedFrame : HostFrame :=
  ⟨⟨"/srv/app/handler.py", "handle", 3, 1, some [("d", 0)], none, false, none⟩, []⟩

/-- An action that may fire once, of a tracepoint with given arguments, and one without
limits and arguments. -/
def spentBeside (args : List (String × String)) : List Action :=
  let action (id : String) (args : List (String × String)) (limit : Int) (key : Nat) : Action :=
    ⟨"", ⟨id, "handler.py", 3, .ofList args, [], []⟩, none, .snapshot, ⟨limit, 0, 0, 0⟩, key⟩
  [action "a" args 1 0, action "b" [] (-1) 1]

/-- The first of these actions has fired. -/
def spentState : AgentState :=
  { initial nestedHeap (.ofSize 1 1) with ledger := ⟨#[⟨1, some 0⟩, ⟨0, none⟩]⟩ }

/-- Collaborators that answer every call and know all expressions. -/
def calmCollaborators : Collaborators :=
  { Firing.plainCollaborators with evaluate := evaluateExpression }

theorem silent_interfere_by_bounds_spent :
    let actions := spentBeside []
    let others := actions.drop 1
    IsUniform calmCollaborators.evaluate ∧ spentState.heap.IsClosed ∧
      nestedFrame.LivesIn spentState.heap ∧ (actions.map Action.key).Nodup ∧
      spentState.audible calmCollaborators .line nestedFrame actions = others ∧
      bounds calmCollaborators actions = bounds calmCollaborators others ∧
      (spentState.runActions calmCollaborators .line nestedFrame actions).2.apparent =
        (spentState.runActions calmCollaborators .line nestedFrame others).2.apparent := by
  intro actions others
  have hc : IsUniform calmCollaborators.evaluate := evaluateExpression_isUniform
  have hheap : spentState.heap.IsClosed := by
    unfold Heap.IsClosed
    decide
  have hframe : nestedFrame.LivesIn spentState.heap := by
    intro a ha locals hlocals p hp
    obtain rfl : a = nestedFrame.top := List.mem_singleton.1 ha
    obtain rfl : [("d", 0)] = locals := Option.some.inj hlocals
    obtain rfl : p = ("d", 0) := List.mem_singleton.1 hp
    decide
  have hkeys : (actions.map Action.key).Nodup := by decide
  have haudible : spentState.audible calmCollaborators .line nestedFrame actions = others := by
    decide +kernel
  have hbounds : bounds calmCollaborators actions = bounds calmCollaborators others := by
    decide +kernel
  refine ⟨hc, hheap, hframe, hkeys, haudible, hbounds, ?_⟩
  rw [← haudible] at hbounds ⊢
  exact (silent_interfere_by_bounds hc hheap hframe hkeys).2.2.2 hbounds

/-- With a deeper bound of the spent action the snapshot of the other reaches one level
deeper. -/
theorem silent_lends_depth :
    let actions := spentBeside [("MAX_VAR_DEPTH", "6")]
    let others := actions.drop 1
    let snapshots (actions : List Action) : List Snapshot :=
      (spentState.runActions calmCollaborators .line nestedFrame
        actions).2.journal.snapshots.toList
    (actions.map fun a => a.tracepoint.id) = ["a", "b"] ∧
      spentState.audible calmCollaborators .line nestedFrame actions = others ∧
      (snapshots actions).map (fun s => s.lookup.size) = [6] ∧
      (snapshots others).map (fun s => s.lookup.size) = [5] := by
  exact ⟨by decide, by decide +kernel, by cbv, by cbv⟩

end AgentState
end LiveProbe
