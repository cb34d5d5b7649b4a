import LiveProbe.Proofs.Context.Deliveries

/-!
# Calls on a closed context

A closed context is not closed for good.

**Calls.**  A context is told to process actions and to close, in any order and any number of
times (`Firing.Call`).  Only closing asks for the state; processing never does.

**Invariant.**  While the limits of the actions stand against all of them, a closed context
and its agent stay just as they are (`Firing.after_of_refuses`).

**Reopening.**  The first action that its limits allow sets the state anew, so that whatever
it was before is forgotten (`Firing.fire_enter`).  What follows is what an open context does.

**Results.**
* `Firing.stays_closed_iff`: the runs of calls in which a closed context stays closed.
* `Firing.closed_context_delivers`: a closed context that fires an action and delivers its
  result.
-/

namespace LiveProbe
namespace Firing

/-- What a context is told to do. -/
inductive Call
  | process (actions : List Action)
  | close

/-- The limits stand against all actions of the call. -/
def Refuses (f : Firing) : Call → Prop
  | .process actions => ∀ a ∈ actions, (f.refusal? a).isSome = true
  | .close => True

/-- The context after a call. -/
def call (c : Collaborators) (reentry : Reentry) (f : Firing) : Call → Firing
  | .process actions => (f.process c actions).2
  | .close => f.close c reentry

/-- The context after calls in their order. -/
def after (c : Collaborators) (reentry : Reentry) (f : Firing) (calls : List Call) : Firing :=
  calls.foldl (call c reentry) f

section Calls

variable {c : Collaborators} {reentry : Reentry} {f : Firing}

/-! ### Refusal -/

/-- Actions that all are refused leave everything as it is. -/
theorem process_of_refuses
    {actions : List Action}
    (h : f.Refuses (.process actions)) :
    f.process c actions = (0, f) := by
  induction actions with
  | nil => rfl
  | cons a rest ih =>
      obtain ⟨ha, hrest⟩ := List.forall_mem_cons.mp h
      obtain ⟨reason, hreason⟩ := Option.isSome_iff_exists.mp ha
      rw [process, fire_of_refused hreason]
      dsimp only
      rw [ih hrest]
      rfl

theorem call_of_refuses
    {call : Call}
    (hclosed : f.context.state = .closed)
    (h : f.Refuses call) :
    f.call c reentry call = f := by
  cases call with
  | process actions => exact congrArg Prod.snd (process_of_refuses h)
  | close => exact close_of_closed hclosed c reentry

theorem after_of_refuses
    {calls : List Call}
    (hclosed : f.context.state = .closed)
    (h : ∀ call ∈ calls, f.Refuses call) :
    f.after c reentry calls = f := by
  induction calls with
  | nil => rfl
  | cons call rest ih =>
      obtain ⟨hcall, hrest⟩ := List.forall_mem_cons.mp h
      rw [after, List.foldl_cons, call_of_refuses hclosed hcall]
      exact ih hrest

/-! ### Reopening -/

/-- An action that is allowed begins by entering a stage, whatever the one before was. -/
theorem fire_enter
    {a : Action}
    (ha : f.refusal? a = none)
    (state : ContextState) :
    (f.enter state).fire c a = f.fire c a := by
  have hrefusal : (f.enter state).refusal? a = none := ha
  rw [fire, hrefusal, fire, ha]
  rfl

/-- The stage of a context has no bearing on processing. -/
theorem process_enter
    {actions : List Action}
    (h : ¬f.Refuses (.process actions))
    (state : ContextState) :
    (f.enter state).process c actions = f.process c actions := by
  induction actions with
  | nil => exact absurd nofun h
  | cons a rest ih =>
      cases ha : f.refusal? a with
      | none => rw [process, process, fire_enter ha]
      | some reason =>
          have hrefusal : (f.enter state).refusal? a = some reason := ha
          have hrest : ¬f.Refuses (.process rest) := by
            intro hrest
            refine h (List.forall_mem_cons.mpr ⟨?_, hrest⟩)
            rw [ha]
            rfl
          rw [process, process, fire_of_refused ha, fire_of_refused hrefusal]
          dsimp only
          rw [ih hrest]

/-- An action that is not refused leaves the context open. -/
theorem state_process
    {actions : List Action}
    (h : ¬f.Refuses (.process actions)) :
    (f.process c actions).2.context.state ≠ .closed := by
  rw [← process_enter h .opened]
  exact (opens_process c actions (f.enter .opened)).closing nofun

/-- A context that stays closed all along has refused all calls. -/
theorem refuses_of_stays_closed
    {calls : List Call}
    (hclosed : f.context.state = .closed)
    (h : ∀ before, before <+: calls → (f.after c reentry before).context.state = .closed) :
    ∀ call ∈ calls, f.Refuses call := by
  induction calls with
  | nil => nofun
  | cons call rest ih =>
      have hcall : f.Refuses call := by
        cases call with
        | process actions =>
            by_contra hallowed
            exact state_process hallowed (h [.process actions] (List.prefix_append _ rest))
        | close => trivial
      refine List.forall_mem_cons.mpr ⟨hcall, ih fun before hbefore => ?_⟩
      have hlater := h (call :: before) (List.cons_prefix_cons.mpr ⟨rfl, hbefore⟩)
      rwa [after, List.foldl_cons, call_of_refuses hclosed hcall] at hlater

/-- A closed context stays closed through calls exactly if limits stand against all actions of
all of them, and then nothing changes.  A call with any other action leaves it open, and does
what it would have done with an open context. -/
theorem stays_closed_iff
    (c : Collaborators) (reentry : Reentry)
    (hclosed : f.context.state = .closed)
    (calls : List Call) :
    ((∀ before, before <+: calls → (f.after c reentry before).context.state = .closed) ↔
      ∀ call ∈ calls, f.Refuses call) ∧
    ((∀ call ∈ calls, f.Refuses call) → f.after c reentry calls = f) ∧
    ∀ actions, ¬f.Refuses (.process actions) →
      f.process c actions = (f.enter .opened).process c actions ∧
        (f.process c actions).2.context.state ≠ .closed := by
  refine ⟨⟨refuses_of_stays_closed hclosed, fun h before hbefore => ?_⟩,
    after_of_refuses hclosed, fun actions h => ⟨(process_enter h .opened).symm, state_process h⟩⟩
  rw [after_of_refuses hclosed fun call hcall => h call (hbefore.subset hcall)]
  exact hclosed

end Calls

/-- A message, with a limit on how often it may be written. -/
def chat (limit : Int) : Action :=
  ⟨"", ⟨"tp", "handler.py", 3, .empty, [], []⟩, none, .log "hit", ⟨limit, 0, 0, 0⟩, 0⟩

/-- A state with a record for it. -/
def chatState : AgentState :=
  { AgentState.initial .empty (.ofSize 1 1) with ledger := FireLedger.empty.extend 1 }

/-- A context for messages that may be written any number of times. -/
def chatting : Firing :=
  (begin? plainCollaborators .line bareFrame [chat (-1)] chatState).get rfl

/-- The same context, closed. -/
def silenced : Firing := chatting.close plainCollaborators AgentState.deliverInside

theorem stays_closed_iff_silenced :
    silenced.context.state = .closed ∧
      silenced.after plainCollaborators AgentState.deliverInside [.process [chat 0], .close] =
        silenced ∧
      ¬silenced.Refuses (.process [chat (-1)]) ∧
      (silenced.process plainCollaborators [chat (-1)]).2.context.state ≠ .closed := by
  have hclosed : silenced.context.state = .closed :=
    state_close plainCollaborators AgentState.deliverInside chatting
  have hspent : ∀ call ∈ [Call.process [chat 0], .close], silenced.Refuses call := by
    refine List.forall_mem_cons.mpr ⟨List.forall_mem_singleton.mpr ?_, ?_⟩
    · decide +kernel
    · exact List.forall_mem_singleton.mpr trivial
  have hallowed : ¬silenced.Refuses (.process [chat (-1)]) := by
    intro h
    exact absurd (List.forall_mem_singleton.mp h) (by decide +kernel)
  obtain ⟨-, hkept, hreopened⟩ := stays_closed_iff plainCollaborators AgentState.deliverInside
    hclosed [.process [chat 0], .close]
  exact ⟨hclosed, hkept hspent, hallowed, (hreopened _ hallowed).2⟩

/-- A closed context fires the action, keeps a result and delivers it when it is closed again. -/
theorem closed_context_delivers :
    let later := silenced.after plainCollaborators AgentState.deliverInside [.process [chat (-1)]]
    let last := later.after plainCollaborators AgentState.deliverInside [.close]
    begin? plainCollaborators .line bareFrame [chat (-1)] chatState = some chatting ∧
      silenced = chatting.after plainCollaborators AgentState.deliverInside [.close] ∧
      silenced.context.state = .closed ∧ silenced.agent.journal.logs.size = 0 ∧
      (silenced.agent.ledger.read 0).count = 0 ∧
      later.context.state = .processing ∧ later.context.results.length = 1 ∧
      (later.agent.ledger.read 0).count = 1 ∧
      last.agent.journal.logs.toList.map LogRecord.message = ["[deep] hit"] := by
  intro later last
  refine ⟨rfl, rfl, ?_⟩
  decide +kernel

end Firing
end LiveProbe
