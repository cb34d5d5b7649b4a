import LiveProbe.Agent.Lifecycle

/-!
# Listeners in the course of updates

What the listeners of an agent are told while listeners join and sets of tracepoints are put
in force, and what the hook then watches.

**Run.**  Registrations and updates come in any order (`ConfigCall`).  A listener is known by
its position in the order of registration, as several may bear one name.  Any of them may panic
at any change.

**Invariant.**  The hook is registered, and its index is one of the active set
(`Agent.IsCurrent`).  Whoever is registered hears each later change once, and these changes lead
from the state at the registration to the active one (`linked_tellsAll`).

**Results.**
* `tellAll_eq_foldl`: each listener is told once, in the order of registration.
* `update_eq`: what one update answers, changes and tells.
* `after_cases`: all that a call can do.
* `told_in_chains`: what is true after any calls.
-/

namespace LiveProbe

/-! ### Changes in a chain -/

namespace ConfigChange

/-- Changes that lead from one state to another, each from where the one before led. -/
def Linked : ConfigState → List ConfigChange → ConfigState → Prop
  | first, [], last => first = last
  | first, change :: rest, last => change.old = first ∧ Linked change.new rest last

theorem Linked.append
    {first middle last : ConfigState} {changes more : List ConfigChange}
    (h : Linked first changes middle)
    (hmore : Linked middle more last) :
    Linked first (changes ++ more) last := by
  induction changes generalizing first with
  | nil => rwa [show first = middle from h]
  | cons change changes ih => exact ⟨h.1, ih h.2⟩

end ConfigChange

/-! ### Listeners -/

namespace Listener

/-- The name under which it is recorded what a listener was told. -/
def name? : Listener → Option String
  | hook => none
  | named name _ => some name

/-- A listener is told of a change. Its panic is reported and goes no further. -/
def hear (change : ConfigChange) (s : AgentState) (l : Listener) : AgentState :=
  match l.tell change s with
  | (true, s) => s
  | (false, s) => s.report .listenerPanicked

end Listener

namespace AgentState

/-- Listeners are told one after another, and one that panics does not keep the others out. -/
theorem tellAll_eq_foldl
    (change : ConfigChange) (listeners : List Listener) (s : AgentState) :
    s.tellAll change listeners = listeners.foldl (Listener.hear change) s := by
  induction listeners generalizing s with
  | nil => rfl
  | cons l listeners ih =>
      rw [List.foldl_cons, ← ih, tellAll, Listener.hear]
      rcases l.tell change s with ⟨_ | _, t⟩ <;> rfl

section Reports

variable {α : Type} (d : α → Diagnostic) (xs : List α) (s : AgentState)

theorem notifications_reports :
    (xs.foldl (fun s x => s.report (d x)) s).journal.notifications =
      s.journal.notifications := by
  induction xs generalizing s with
  | nil => rfl
  | cons x xs ih => rw [List.foldl_cons, ih, report, Journal.report]

theorem index_reports : (xs.foldl (fun s x => s.report (d x)) s).index = s.index := by
  induction xs generalizing s with
  | nil => rfl
  | cons x xs ih => rw [List.foldl_cons, ih, report]

end Reports

variable (tps : List Tracepoint) (change : ConfigChange) (s : AgentState)

theorem index_newConfig : (s.newConfig tps).index = .build s.ledger.next tps := by
  rw [newConfig, index_reports]
  rfl

theorem notifications_newConfig :
    (s.newConfig tps).journal.notifications = s.journal.notifications := by
  rw [newConfig, notifications_reports]

/-- A named listener notes the change, and all others note nothing. -/
theorem notifications_hear
    (l : Listener) :
    (l.hear change s).journal.notifications.toList =
      s.journal.notifications.toList ++ (l.name?.map fun name => (name, change)).toList := by
  rcases l with _ | ⟨name, panics⟩
  · rw [Listener.hear, Listener.tell, notifications_newConfig]
    exact (List.append_nil _).symm
  · rw [Listener.hear, Listener.tell]
    rcases panics change with _ | _ <;>
      simp [report, Journal.report, Journal.notify, Listener.name?]

/-- The notes of all listeners, in the order of the listeners. -/
theorem notifications_foldl_hear
    (listeners : List Listener) :
    (listeners.foldl (Listener.hear change) s).journal.notifications.toList =
      s.journal.notifications.toList ++
        listeners.filterMap fun l => l.name?.map fun name => (name, change) := by
  induction listeners generalizing s with
  | nil => exact (List.append_nil _).symm
  | cons l listeners ih =>
      rw [List.foldl_cons, ih, notifications_hear, List.append_assoc]
      rcases hname : l.name? with _ | name <;> simp [hname]

/-- The index is one of the set that a change brought, with whatever keys. -/
def Watches (tps : List Tracepoint) (s : AgentState) : Prop :=
  ∃ key, s.index = .build key tps

/-- The hook takes over the tracepoints of the change. -/
theorem watches_hear_hook : (Listener.hook.hear change s).Watches change.new.tracepoints :=
  ⟨s.ledger.next, index_newConfig _ s⟩

/-- No listener takes the tracepoints of a change away again. -/
theorem Watches.hear
    {s : AgentState} {change : ConfigChange}
    (h : s.Watches change.new.tracepoints)
    (l : Listener) :
    (l.hear change s).Watches change.new.tracepoints := by
  rcases l with _ | ⟨name, panics⟩
  · exact watches_hear_hook change s
  · rw [Listener.hear, Listener.tell]
    rcases panics change with _ | _ <;> exact h

/-- Once the hook is told, the index is that of the change, whoever is told later. -/
theorem watches_foldl_hear
    {change : ConfigChange} {listeners : List Listener} {s : AgentState}
    (h : .hook ∈ listeners ∨ s.Watches change.new.tracepoints) :
    (listeners.foldl (Listener.hear change) s).Watches change.new.tracepoints := by
  induction listeners generalizing s with
  | nil => simpa using h
  | cons l listeners ih =>
      rw [List.foldl_cons]
      refine ih ?_
      rw [List.mem_cons] at h
      rcases h with (rfl | hlater) | hwatches
      · exact .inr (watches_hear_hook change s)
      · exact .inl hlater
      · exact .inr (hwatches.hear l)

end AgentState

/-! ### Calls -/

/-- What an agent is asked for its configuration. -/
inductive ConfigCall
  | listen (l : Listener)
  | update (hash : String) (tps : List Tracepoint)
  | updateComputed (tps : List Tracepoint)

/-- That a listener, known by its position in the order of registration, is told of a change. -/
structure Telling where
  listener : Listener
  position : Nat
  change : ConfigChange

namespace Telling

/-- What is recorded of a telling. -/
def record? (t : Telling) : Option (String × ConfigChange) :=
  t.listener.name?.map fun name => (name, t.change)

/-- The changes that the listener at a position is told of, in their order. -/
def heard (position : Nat) (tellings : List Telling) : List ConfigChange :=
  (tellings.filter fun t => t.position = position).map change

/-- Each listener is told of a change once. -/
def allFrom (position : Nat) (listeners : List Listener) (change : ConfigChange) :
    List Telling :=
  match listeners with
  | [] => []
  | l :: rest => ⟨l, position, change⟩ :: allFrom (position + 1) rest change

/-- What is recorded of telling all listeners does not depend on where the counting of positions
begins. -/
theorem filterMap_record?_allFrom
    (listeners : List Listener) (change : ConfigChange) (position : Nat) :
    (allFrom position listeners change).filterMap record? =
      listeners.filterMap fun l => l.name?.map fun name => (name, change) := by
  induction listeners generalizing position with
  | nil => rfl
  | cons l listeners ih =>
      rw [allFrom, List.filterMap_cons, List.filterMap_cons, ih, record?]

theorem heard_append
    (position : Nat) (tellings more : List Telling) :
    heard position (tellings ++ more) = heard position tellings ++ heard position more := by
  simp [heard]

/-- When all listeners from a position on are told, each of them hears the change once. -/
theorem heard_allFrom
    (listeners : List Listener) (change : ConfigChange) (first position : Nat) :
    heard position (allFrom first listeners change) =
      if first ≤ position ∧ position < first + listeners.length then [change] else [] := by
  induction listeners generalizing first with
  | nil =>
      rw [if_neg (by simp)]
      rfl
  | cons l listeners ih =>
      have hcons :
          heard position (allFrom first (l :: listeners) change) =
            (if first = position then [change] else []) ++
              heard position (allFrom (first + 1) listeners change) := by
        rw [allFrom, heard, List.filter_cons]
        split <;> simp_all [heard]
      rw [hcons, ih, List.length_cons]
      by_cases hhere : first = position
      · rw [if_pos hhere, if_neg (by omega), if_pos (by omega), List.append_nil]
      · rw [if_neg hhere, List.nil_append]
        congr 1
        simp only [eq_iff_iff]
        omega

end Telling

namespace Agent

/-- The agent after a call. -/
def after (a : Agent) : ConfigCall → Agent
  | .listen l => a.listen l
  | .update hash tps => (a.update hash tps).2
  | .updateComputed tps => (a.updateComputed tps).2

/-- The agent after calls in their order. -/
def afterAll (a : Agent) (calls : List ConfigCall) : Agent := calls.foldl after a

/-- What an update has the listeners told. -/
def tellsUpdate (a : Agent) (hash : String) (tps : List Tracepoint) : List Telling :=
  match (a.service.update (a.collaborators.clock a.state.readings) hash tps).2 with
  | some change => Telling.allFrom 0 a.service.listeners change
  | none => []

/-- What a call has the listeners told. -/
def tells (a : Agent) : ConfigCall → List Telling
  | .listen _ => []
  | .update hash tps => a.tellsUpdate hash tps
  | .updateComputed tps => a.tellsUpdate (Tracepoint.fingerprint tps) tps

/-- What calls have the listeners told, in their order. -/
def tellsAll (a : Agent) : List ConfigCall → List Telling
  | [] => []
  | call :: rest => a.tells call ++ (a.after call).tellsAll rest

theorem afterAll_append
    (a : Agent) (calls more : List ConfigCall) :
    a.afterAll (calls ++ more) = (a.afterAll calls).afterAll more :=
  List.foldl_append

/-- Later calls tell what they would tell in the state that the earlier ones leave. -/
theorem tellsAll_append
    (a : Agent) (calls more : List ConfigCall) :
    a.tellsAll (calls ++ more) = a.tellsAll calls ++ (a.afterAll calls).tellsAll more := by
  induction calls generalizing a with
  | nil => rfl
  | cons call calls ih =>
      rw [List.cons_append, tellsAll, ih, tellsAll, List.append_assoc]
      rfl

/-! ### One call -/

/-- The change that an update under a new hash makes. -/
def changeTo (a : Agent) (hash : String) (tps : List Tracepoint) : ConfigChange :=
  let ts := a.collaborators.clock a.state.readings
  ⟨ts, a.service.state, ⟨hash, tps, ts⟩⟩

/-- The agent after a change: the new set is in force, and each listener has heard of it. -/
def changed (a : Agent) (change : ConfigChange) : Agent :=
  { a with
    service := { a.service with state := change.new }
    state := a.service.listeners.foldl (Listener.hear change)
      (a.state.readClock a.collaborators).2 }

variable {a : Agent}

/-- An update with the hash that is in force does nothing; any other one is a change of which all
listeners are told. -/
theorem update_eq
    (a : Agent) (hash : String) (tps : List Tracepoint) :
    if hash = a.service.state.hash then
      a.update hash tps = (false, a) ∧ a.tellsUpdate hash tps = []
    else
      a.update hash tps = (true, a.changed (a.changeTo hash tps)) ∧
        a.tellsUpdate hash tps =
          Telling.allFrom 0 a.service.listeners (a.changeTo hash tps) := by
  split
  · next hsame =>
      subst hsame
      refine ⟨a.update_of_same tps, ?_⟩
      rw [tellsUpdate, ConfigService.update_of_same]
  · next hnew =>
      have hchanged : a.service.isChanged hash = true := by
        simpa [ConfigService.isChanged] using Ne.symm hnew
      constructor
      · simp [update, ConfigService.apply, ConfigService.update, hchanged, changed, changeTo,
          AgentState.readClock, AgentState.tellAll_eq_foldl]
      · simp [tellsUpdate, ConfigService.update, hchanged, changeTo]

/-- A call registers a listener, does nothing, or changes the configuration. -/
theorem after_cases
    (a : Agent) (call : ConfigCall) :
    (∃ l, a.after call = a.listen l ∧ a.tells call = []) ∨
      (a.after call = a ∧ a.tells call = []) ∨
        ∃ change, change.old = a.service.state ∧ a.after call = a.changed change ∧
          a.tells call = Telling.allFrom 0 a.service.listeners change := by
  have hupdate : ∀ hash tps,
      ((a.update hash tps).2 = a ∧ a.tellsUpdate hash tps = []) ∨
        ∃ change, change.old = a.service.state ∧ (a.update hash tps).2 = a.changed change ∧
          a.tellsUpdate hash tps = Telling.allFrom 0 a.service.listeners change := by
    intro hash tps
    have hcases := a.update_eq hash tps
    split at hcases
    · exact .inl ⟨congrArg Prod.snd hcases.1, hcases.2⟩
    · exact .inr ⟨a.changeTo hash tps, rfl, congrArg Prod.snd hcases.1, hcases.2⟩
  cases call with
  | listen l => exact .inl ⟨l, rfl, rfl⟩
  | update hash tps => exact .inr (hupdate hash tps)
  | updateComputed tps => exact .inr (hupdate (Tracepoint.fingerprint tps) tps)

/-- The hook is registered and watches the active set. -/
structure IsCurrent (a : Agent) : Prop where
  hooked : .hook ∈ a.service.listeners
  watches : a.state.Watches a.service.state.tracepoints

/-- After every call the index is that of the tracepoints in force. -/
theorem IsCurrent.after
    (h : a.IsCurrent)
    (call : ConfigCall) :
    (a.after call).IsCurrent := by
  rcases a.after_cases call with ⟨l, hafter, -⟩ | ⟨hafter, -⟩ | ⟨change, -, hafter, -⟩
  · rw [hafter]
    exact ⟨List.mem_append_left _ h.hooked, h.watches⟩
  · rwa [hafter]
  · rw [hafter]
    exact ⟨h.hooked, AgentState.watches_foldl_hear (.inl h.hooked)⟩

theorem listeners_after
    (a : Agent) (call : ConfigCall) :
    a.service.listeners <+: (a.after call).service.listeners := by
  rcases a.after_cases call with ⟨l, hafter, -⟩ | ⟨hafter, -⟩ | ⟨change, -, hafter, -⟩
  · rw [hafter]
    exact List.prefix_append _ _
  · simp [hafter]
  · rw [hafter]
    exact List.prefix_rfl

/-- The journal notes just the tellings of a call. -/
theorem notifications_after
    (a : Agent) (call : ConfigCall) :
    (a.after call).state.journal.notifications.toList =
      a.state.journal.notifications.toList ++ (a.tells call).filterMap Telling.record? := by
  rcases a.after_cases call with
    ⟨l, hafter, htells⟩ | ⟨hafter, htells⟩ | ⟨change, -, hafter, htells⟩
  · rw [hafter, htells]
    exact (List.append_nil _).symm
  · rw [hafter, htells]
    exact (List.append_nil _).symm
  · rw [hafter, htells, Telling.filterMap_record?_allFrom]
    exact AgentState.notifications_foldl_hear change _ _

/-- Before a listener is there, it hears nothing. -/
theorem heard_tells_of_ge
    {position : Nat}
    (h : a.service.listeners.length ≤ position)
    (call : ConfigCall) :
    Telling.heard position (a.tells call) = [] := by
  rcases a.after_cases call with ⟨l, -, htells⟩ | ⟨-, htells⟩ | ⟨change, -, -, htells⟩
  · rw [htells]
    rfl
  · rw [htells]
    rfl
  · rw [htells, Telling.heard_allFrom, if_neg (by omega)]

/-- What a listener hears of a call leads from the state before it to the one after it. -/
theorem linked_tells
    {position : Nat}
    (h : position < a.service.listeners.length)
    (call : ConfigCall) :
    ConfigChange.Linked a.service.state (Telling.heard position (a.tells call))
      (a.after call).service.state := by
  rcases a.after_cases call with
    ⟨l, hafter, htells⟩ | ⟨hafter, htells⟩ | ⟨change, hold, hafter, htells⟩
  · rw [hafter, htells]
    rfl
  · rw [hafter, htells]
    rfl
  · rw [hafter, htells, Telling.heard_allFrom, if_pos (by omega)]
    exact ⟨hold, rfl⟩

/-! ### Runs of calls -/

/-- The index is that of the tracepoints in force, after any calls. -/
theorem IsCurrent.afterAll
    (h : a.IsCurrent)
    (calls : List ConfigCall) :
    (a.afterAll calls).IsCurrent := by
  induction calls generalizing a with
  | nil => exact h
  | cons call calls ih => exact ih (h.after call)

theorem listeners_afterAll
    (a : Agent) (calls : List ConfigCall) :
    a.service.listeners <+: (a.afterAll calls).service.listeners := by
  induction calls generalizing a with
  | nil => exact List.prefix_rfl
  | cons call calls ih => exact (a.listeners_after call).trans (ih (a.after call))

/-- The journal notes just the tellings of all calls, in their order. -/
theorem notifications_afterAll
    (a : Agent) (calls : List ConfigCall) :
    (a.afterAll calls).state.journal.notifications.toList =
      a.state.journal.notifications.toList ++ (a.tellsAll calls).filterMap Telling.record? := by
  induction calls generalizing a with
  | nil => exact (List.append_nil _).symm
  | cons call calls ih =>
      rw [tellsAll, List.filterMap_append, ← List.append_assoc, ← notifications_after]
      exact ih (a.after call)

/-- Nobody is told before being registered. -/
theorem heard_tellsAll_of_ge
    {position : Nat} {calls : List ConfigCall}
    (h : (a.afterAll calls).service.listeners.length ≤ position) :
    Telling.heard position (a.tellsAll calls) = [] := by
  induction calls generalizing a with
  | nil => rfl
  | cons call calls ih =>
      have hfirst := Nat.le_trans (a.listeners_afterAll (call :: calls)).length_le h
      rw [tellsAll, Telling.heard_append, heard_tells_of_ge hfirst]
      exact ih h

/-- Once registered, a listener is told of every change. -/
theorem linked_tellsAll
    {position : Nat}
    (h : position < a.service.listeners.length)
    (calls : List ConfigCall) :
    ConfigChange.Linked a.service.state (Telling.heard position (a.tellsAll calls))
      (a.afterAll calls).service.state := by
  induction calls generalizing a with
  | nil => rfl
  | cons call calls ih =>
      rw [tellsAll, Telling.heard_append]
      have hlater := Nat.lt_of_lt_of_le h (a.listeners_after call).length_le
      exact (linked_tells h call).append (ih hlater)

/-! ### Built agents -/

section Built

variable (config : AgentConfig) (process : String) (metrics : List MetricProcessor)
variable (spans : List SpanProcessor) (c : Collaborators) (heap : Heap)

/-- A fresh agent watches no tracepoints, and none are in force. -/
theorem isCurrent_build : (build config process metrics spans c heap).IsCurrent := by
  refine ⟨List.mem_singleton_self _, 0, ?_⟩
  rw [build, AgentState.index_reports (fun d => d)]
  rfl

theorem notifications_build :
    (build config process metrics spans c heap).state.journal.notifications = #[] := by
  rw [build, AgentState.notifications_reports (fun d => d)]
  rfl

/-- After any calls: an update is refused exactly if its hash is the active one, and then
changes and tells nothing; else the new set is in force, and every listener has heard of the
change once, whoever panics.  What a listener hears leads from the state in which it was
registered to the active one, and all of it is on record.  The hook, which is the first
listener, watches the active set. -/
theorem told_in_chains
    (calls : List ConfigCall) :
    let first := build config process metrics spans c heap
    let a := first.afterAll calls
    (∀ hash tps,
      if hash = a.service.state.hash then
        a.update hash tps = (false, a) ∧ a.tellsUpdate hash tps = []
      else
        a.update hash tps = (true, a.changed (a.changeTo hash tps)) ∧
          a.tellsUpdate hash tps =
            Telling.allFrom 0 a.service.listeners (a.changeTo hash tps)) ∧
      a.state.journal.notifications.toList =
        (first.tellsAll calls).filterMap Telling.record? ∧
      ConfigChange.Linked ⟨"", [], 0⟩ (Telling.heard 0 (first.tellsAll calls)) a.service.state ∧
      (∀ before l after, calls = before ++ .listen l :: after →
        let joined := first.afterAll before
        let position := joined.service.listeners.length
        a.service.listeners[position]? = some l ∧
          ConfigChange.Linked joined.service.state
            (Telling.heard position (first.tellsAll calls)) a.service.state) ∧
      ∃ key, a.state.index = TriggerIndex.build key a.service.state.tracepoints := by
  intro first a
  have hcurrent := (isCurrent_build config process metrics spans c heap).afterAll calls
  refine ⟨a.update_eq, ?_, linked_tellsAll (a := first) Nat.one_pos calls, ?_, hcurrent.watches⟩
  · have hrun := first.notifications_afterAll calls
    rwa [notifications_build] at hrun
  · rintro before l after rfl joined position
    have hlisteners :
        (joined.after (.listen l)).service.listeners = joined.service.listeners ++ [l] := rfl
    have hjoined : position < (joined.after (.listen l)).service.listeners.length := by
      rw [hlisteners, List.length_append]
      exact Nat.lt_succ_self position
    have ha : a = (joined.after (.listen l)).afterAll after := first.afterAll_append before _
    constructor
    · obtain ⟨later, hlater⟩ := (joined.after (.listen l)).listeners_afterAll after
      rw [ha, ← hlater, List.getElem?_append_left hjoined, hlisteners, List.getElem?_concat_length]
    · have hbefore : Telling.heard position (first.tellsAll before) = [] :=
        heard_tellsAll_of_ge (Nat.le_refl position)
      have hafter := linked_tellsAll hjoined after
      rw [← ha] at hafter
      rw [first.tellsAll_append, Telling.heard_append, hbefore]
      exact hafter

end Built
end Agent
end LiveProbe
