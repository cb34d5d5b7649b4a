import Mathlib.Data.List.Induction
import LiveProbe.Proofs.Agent.Firings
import LiveProbe.Proofs.Trigger.Rebuild

/-!
# The fire count in the course of a run

How often an action fires while the configuration is updated around it.

**Run.**  Events and updates come in any order.  At an update the index is rebuilt; the
actions that wait for the end of a line stay the ones of the old index, with their old
keys (`HookRun.overtaken`).  Such an action may still fire, and then fires on a record
that nobody reads any more (`HookRun.stale`).

**Invariant.**  Keys tell apart all actions that may fire (`AgentState.Follows`).  The
firings of one action of an unchanged tracepoint are those that the action in the
index has on record, together with the stale ones (`HookRun.Counts`).

**Results.**
* `fires_within_limit_iff`: an action fires within its limit exactly if the stale
  firings are no more than what the record leaves; and it does where no update
  overtakes it.
* `overtaken_fires_twice`: an update between a line and its end lets an action with the
  limit one fire twice.
-/

namespace LiveProbe

/-- What a hook is told: an event, with the values as they are at its time, or a new
configuration. -/
inductive HookStep
  | event (heap : Heap) (event : TraceEvent) (frame : HostFrame)
  | update (tps : List Tracepoint)

/-- The configurations in the course of a run. -/
def HookStep.configs (steps : List HookStep) : List (List Tracepoint) :=
  steps.filterMap fun
    | .event .. => none
    | .update tps => some tps

/-- The action has the id and does its part for the tracepoint. -/
def Action.isOf (tp : Tracepoint) (id : String) (a : Action) : Bool :=
  a.tracepoint = tp && a.id = id

/-- The firings that the index has on record for an action. -/
def AgentState.recorded (tp : Tracepoint) (id : String) (s : AgentState) : Nat :=
  match s.index.actions.find? (Action.isOf tp id) with
  | some a => (s.ledger.read a.key).count
  | none => 0

/-- A run of the hook, with what fired in it. -/
structure HookRun where
  state : AgentState
  fired : List Action
  /-- What fired without being in the index. -/
  stale : List Action
  /-- What waited when an update came. -/
  overtaken : List Action

namespace HookRun

/-- Before the first step. -/
def begin (heap : Heap) (pool : TaskPool Snapshot) : HookRun := ⟨.initial heap pool, [], [], []⟩

/-- The run after one further step. -/
def after (c : Collaborators) (r : HookRun) : HookStep → HookRun
  | .event heap event frame =>
      let s := { r.state with heap := heap }
      let fired := s.firedOn c event frame
      { r with
        state := (s.traceCall c event frame).2
        fired := r.fired ++ fired
        stale := r.stale ++ fired.filter fun a => a ∉ s.index.actions }
  | .update tps =>
      { r with
        state := r.state.newConfig tps
        overtaken := r.overtaken ++ r.state.waiting }

/-- The run of steps in their order. -/
def ofSteps (c : Collaborators) (heap : Heap) (pool : TaskPool Snapshot) (steps : List HookStep) :
    HookRun :=
  steps.foldl (after c) (begin heap pool)

theorem ofSteps_append_singleton
    (c : Collaborators) (heap : Heap) (pool : TaskPool Snapshot) (steps : List HookStep)
    (step : HookStep) :
    ofSteps c heap pool (steps ++ [step]) = (ofSteps c heap pool steps).after c step := by
  unfold ofSteps
  rw [List.foldl_append]
  rfl

end HookRun

/-! ### Keys in the course of a run -/

namespace AgentState

/-- What may fire goes back to configurations, and its key tells it apart. -/
structure Follows (configs : List (List Tracepoint)) (s : AgentState) : Prop where
  below : ∀ a ∈ s.waiting ++ s.index.actions, a.key < s.ledger.next
  apart : ∀ a ∈ s.waiting ++ s.index.actions, ∀ b ∈ s.waiting ++ s.index.actions,
    a.key = b.key → a = b
  limits : ∀ a ∈ s.waiting ++ s.index.actions, a.limits = .ofTracepoint a.tracepoint
  ids : ∀ a ∈ s.index.actions, ∀ b ∈ s.index.actions, a.id = b.id → a = b
  origin : ∀ a ∈ s.index.actions,
    (∃ tps ∈ configs, a.tracepoint ∈ tps) ∧ TriggerIndex.accepts a.tracepoint = true ∧
      ∃ n ∈ a.tracepoint.effectNames, a.id = a.tracepoint.id ++ n.text

/-- A fresh agent follows the empty history of configurations. -/
theorem follows_initial
    (heap : Heap) (pool : TaskPool Snapshot) :
    (initial heap pool).Follows [] := by
  have hnothing : (initial heap pool).waiting ++ (initial heap pool).index.actions = [] := rfl
  have hindex : (initial heap pool).index.actions = [] := rfl
  refine ⟨?_, ?_, ?_, ?_, ?_⟩
  · rw [hnothing]
    simp
  · rw [hnothing]
    simp
  · rw [hnothing]
    simp
  · rw [hindex]
    simp
  · rw [hindex]
    simp

theorem Follows.serves
    {configs : List (List Tracepoint)} {s t : AgentState} {actions fired : List Action}
    (h : s.Follows configs)
    (hst : s.Serves actions fired t) :
    t.Follows configs := by
  have hsub : ∀ a ∈ t.waiting ++ t.index.actions, a ∈ s.waiting ++ s.index.actions := by
    intro a ha
    rcases List.mem_append.1 ha with hwaiting | hindex
    · exact hst.waiting hwaiting
    · rw [hst.index] at hindex
      exact List.mem_append_right _ hindex
  refine ⟨fun a ha => ?_, fun a ha b hb => h.apart a (hsub a ha) b (hsub b hb),
    fun a ha => h.limits a (hsub a ha), ?_, ?_⟩
  · rw [hst.ledger.next]
    exact h.below a (hsub a ha)
  · rw [hst.index]
    exact h.ids
  · rw [hst.index]
    exact h.origin

/-- Index and record after an update; what waits goes on to wait. -/
theorem newConfig_eq
    (tps : List Tracepoint) (s : AgentState) :
    (s.newConfig tps).index = .build s.ledger.next tps ∧
      (s.newConfig tps).ledger = (s.index.rebuild s.ledger tps).2 ∧
      (s.newConfig tps).waiting = s.waiting := by
  have hreports :
      ∀ (faulty : List Tracepoint) (s : AgentState),
        s.Delivers [] (faulty.foldl (fun s _ => s.report .invalidTracepoint) s) := by
    intro faulty
    induction faulty with
    | nil =>
        exact fun s => s.delivers_refl []
    | cons tp rest ih =>
        intro s
        have hreport : s.Delivers [] (s.report .invalidTracepoint) :=
          ⟨rfl, rfl, rfl, fun _ hx => Or.inl hx⟩
        exact hreport.trans (ih _)
  unfold newConfig
  have hreported := hreports (TriggerIndex.invalid tps)
    { s with
      index := (s.index.rebuild s.ledger tps).1
      ledger := (s.index.rebuild s.ledger tps).2 }
  exact ⟨hreported.index, hreported.ledger, hreported.waiting⟩

/-- An action of an index belongs to an accepted tracepoint of the list, with the limits and the
name of it. -/
theorem of_mem_build
    {key : Nat} {tps : List Tracepoint} {a : Action}
    (ha : a ∈ (TriggerIndex.build key tps).actions) :
    a.tracepoint ∈ tps ∧ TriggerIndex.accepts a.tracepoint = true ∧
      a.limits = .ofTracepoint a.tracepoint ∧
      ∃ n ∈ a.tracepoint.effectNames, a.id = a.tracepoint.id ++ n.text := by
  obtain ⟨tp, htp, haccepts, first, hfirst⟩ :=
    TriggerIndex.exists_of_mem_bound ((TriggerIndex.perm_actions_build key tps).mem_iff.1 ha)
  obtain ⟨htracepoint, hlimits, hname⟩ := Tracepoint.of_mem_actions hfirst
  rw [htracepoint]
  exact ⟨htp, haccepts, hlimits, hname⟩

/-- A new configuration is appended to the history, provided that its ids are distinct. -/
theorem follows_newConfig
    {configs : List (List Tracepoint)} {s : AgentState} {tps : List Tracepoint}
    (h : s.Follows configs)
    (hdistinct : (tps.map Tracepoint.id).Nodup) :
    (s.newConfig tps).Follows (configs ++ [tps]) := by
  obtain ⟨hindex, hledger, hwaiting⟩ := newConfig_eq tps s
  have hnext : (s.newConfig tps).ledger.next =
      s.ledger.next + (TriggerIndex.build s.ledger.next tps).actions.length := by
    rw [hledger, TriggerIndex.next_rebuild]
  have hold : ∀ a ∈ s.waiting, a.key < s.ledger.next := fun a ha =>
    h.below a (List.mem_append_left _ ha)
  refine ⟨?_, ?_, ?_, ?_, ?_⟩
  · intro a ha
    rw [hwaiting, hindex] at ha
    rw [hnext]
    rcases List.mem_append.1 ha with hwaits | hbuilt
    · have := hold a hwaits
      omega
    · exact (TriggerIndex.key_mem_build hbuilt).2
  · intro a ha b hb hkey
    rw [hwaiting, hindex] at ha hb
    rcases List.mem_append.1 ha with hawaits | habuilt
    · rcases List.mem_append.1 hb with hbwaits | hbbuilt
      · exact h.apart a (List.mem_append_left _ hawaits) b (List.mem_append_left _ hbwaits) hkey
      · have hbelow := hold a hawaits
        have habove := (TriggerIndex.key_mem_build hbbuilt).1
        omega
    · rcases List.mem_append.1 hb with hbwaits | hbbuilt
      · have hbelow := hold b hbwaits
        have habove := (TriggerIndex.key_mem_build habuilt).1
        omega
      · exact TriggerIndex.key_injOn_build habuilt hbbuilt hkey
  · intro a ha
    rw [hwaiting, hindex] at ha
    rcases List.mem_append.1 ha with hwaits | hbuilt
    · exact h.limits a (List.mem_append_left _ hwaits)
    · exact (of_mem_build hbuilt).2.2.1
  · rw [hindex]
    exact fun a ha b hb => TriggerIndex.id_injOn_build hdistinct ha hb
  · intro a ha
    rw [hindex] at ha
    obtain ⟨htp, haccepts, _, hname⟩ := of_mem_build ha
    exact ⟨⟨tps, List.mem_append_right _ List.mem_cons_self, htp⟩, haccepts, hname⟩

/-! ### The record of one action -/

section Recorded

variable {s : AgentState} {tp : Tracepoint} {id : String} {a : Action}

theorem of_isOf
    (ha : a.isOf tp id = true) :
    a.tracepoint = tp ∧ a.id = id := by
  simpa [Action.isOf] using ha

theorem mem_or_absent
    (s : AgentState) (tp : Tracepoint) (id : String) :
    (∃ a ∈ s.index.actions, a.isOf tp id = true) ∨
      ∀ a ∈ s.index.actions, a.isOf tp id = false := by
  by_cases hpresent : ∃ a ∈ s.index.actions, a.isOf tp id = true
  · exact Or.inl hpresent
  · refine Or.inr fun a ha => ?_
    rw [← Bool.not_eq_true]
    exact fun hof => hpresent ⟨a, ha, hof⟩

/-- What is recorded for an action of the index is the count under its key. -/
theorem recorded_of_mem
    (hids : ∀ x ∈ s.index.actions, ∀ y ∈ s.index.actions, x.id = y.id → x = y)
    (ha : a ∈ s.index.actions)
    (hof : a.isOf tp id = true) :
    s.recorded tp id = (s.ledger.read a.key).count := by
  unfold recorded
  rcases hfind : s.index.actions.find? (Action.isOf tp id) with _ | found
  · exact absurd hof (List.find?_eq_none.1 hfind a ha)
  · have hfound := List.find?_some hfind
    have hmem := List.mem_of_find?_eq_some hfind
    have hid : found.id = a.id := by
      rw [(of_isOf hfound).2, (of_isOf hof).2]
    rw [hids found hmem a ha hid]

/-- Nothing is recorded for an action that the index does not have. -/
theorem recorded_of_absent
    (habsent : ∀ a ∈ s.index.actions, a.isOf tp id = false) :
    s.recorded tp id = 0 := by
  unfold recorded
  rw [List.find?_eq_none.2 fun a ha => by simp [habsent a ha]]

end Recorded

end AgentState

/-! ### Firings of one action -/

namespace HookRun

/-- Firings, record and stale firings of one action of a tracepoint. -/
structure Counts (tp : Tracepoint) (id : String) (r : HookRun) : Prop where
  total : r.fired.countP (Action.isOf tp id) =
    r.state.recorded tp id + r.stale.countP (Action.isOf tp id)
  bounded : (r.state.recorded tp id : Int) ≤ tp.fireCount
  absent : (∀ a ∈ r.state.index.actions, a.isOf tp id = false) →
    (∀ a ∈ r.state.waiting, a.isOf tp id = false) ∧ r.fired.countP (Action.isOf tp id) = 0
  current : (∀ a ∈ r.overtaken, a.isOf tp id = false) →
    r.stale.countP (Action.isOf tp id) = 0 ∧
      ∀ a ∈ r.state.waiting, a.isOf tp id = true → a ∈ r.state.index.actions

theorem counts_begin
    {tp : Tracepoint}
    (hlimit : 0 ≤ tp.fireCount)
    (id : String) (heap : Heap) (pool : TaskPool Snapshot) :
    (begin heap pool).Counts tp id := by
  have hrecorded : (begin heap pool).state.recorded tp id = 0 := rfl
  refine ⟨rfl, ?_, fun _ => ⟨?_, rfl⟩, fun _ => ⟨rfl, ?_⟩⟩
  · rw [hrecorded]
    exact hlimit
  · intro a ha
    cases ha
  · intro a ha
    cases ha

section Steps

variable {tp : Tracepoint} {id : String} {r : HookRun} {configs : List (List Tracepoint)}

theorem countP_eq_add
    {p q t : Action → Bool} {l : List Action}
    (h : ∀ a ∈ l, (p a).toNat = (q a).toNat + (t a).toNat) :
    l.countP p = l.countP q + l.countP t := by
  induction l with
  | nil =>
      rfl
  | cons a rest ih =>
      have hrest := ih fun b hb => h b (List.mem_cons_of_mem a hb)
      have hfirst := h a List.mem_cons_self
      rw [List.countP_cons, List.countP_cons, List.countP_cons, hrest]
      rcases hp : p a <;> rcases hq : q a <;> rcases ht : t a <;>
        simp only [hp, hq, ht, Bool.toNat_true, Bool.toNat_false] at hfirst <;>
        simp <;> omega

/-- Where the index has the action, its firings at an event are those on its key and those
of its stale likenesses. -/
theorem countP_fired
    {a : Action} {fired : List Action}
    (hfollows : r.state.Follows configs)
    (ha : a ∈ r.state.index.actions)
    (hof : a.isOf tp id = true)
    (hfired : fired ⊆ r.state.waiting ++ r.state.index.actions) :
    fired.countP (Action.isOf tp id) =
      fired.countP (fun b => b.key = a.key) +
        (fired.filter fun b => b ∉ r.state.index.actions).countP (Action.isOf tp id) := by
  rw [List.countP_filter]
  refine countP_eq_add fun b hb => ?_
  have hsame : b.key = a.key → b = a := fun hkey =>
    hfollows.apart b (hfired hb) a (List.mem_append_right _ ha) hkey
  by_cases hkey : b.key = a.key
  · have heq := hsame hkey
    subst heq
    simp [hof, ha]
  · by_cases hbof : b.isOf tp id = true
    · have hstale : b ∉ r.state.index.actions := by
        intro hmem
        refine hkey (congrArg Action.key (hfollows.ids b hmem a ha ?_))
        rw [(AgentState.of_isOf hbof).2, (AgentState.of_isOf hof).2]
      simp [hkey, hbof, hstale]
    · simp [hkey, hbof]

/-- The run after an event at which actions fired. -/
def afterFiring (r : HookRun) (t : AgentState) (fired : List Action) : HookRun :=
  { r with
    state := t
    fired := r.fired ++ fired
    stale := r.stale ++ fired.filter fun a => a ∉ r.state.index.actions }

section Event

variable {a : Action} {t : AgentState} {fired : List Action}

/-- The key of the action is that of no action with another limit. -/
theorem recorded_le_of_serves
    (hfollows : r.state.Follows configs)
    (hlimit : 0 ≤ tp.fireCount)
    (hserves : r.state.Serves (r.state.waiting ++ r.state.index.actions) fired t)
    (ha : a ∈ r.state.index.actions)
    (hof : a.isOf tp id = true)
    (hbound : (r.state.recorded tp id : Int) ≤ tp.fireCount) :
    (t.recorded tp id : Int) ≤ tp.fireCount := by
  have hbelow := hfollows.below a (List.mem_append_right _ ha)
  have hlimits : ∀ b ∈ fired, b.key = a.key → b.limits.fireCount = tp.fireCount := by
    intro b hb hkey
    have heq := hfollows.apart b (hserves.fired hb) a (List.mem_append_right _ ha) hkey
    rw [heq, hfollows.limits a (List.mem_append_right _ ha), (AgentState.of_isOf hof).1]
    rfl
  have hunlimited : tp.fireCount ≠ Limits.unlimitedFireCount := by
    intro heq
    rw [heq] at hlimit
    exact absurd hlimit (by decide)
  rw [AgentState.recorded_of_mem hfollows.ids ha hof] at hbound
  rw [AgentState.recorded_of_mem (hfollows.serves hserves).ids
    (by rw [hserves.index]; exact ha) hof]
  exact FireLedger.count_le_of_fires hserves.ledger hbelow hunlimited hlimits hbound

/-- An event keeps the balance where the index has the action: what fires there is recorded, and
the rest is counted as overtaken. -/
theorem Counts.event_of_mem
    (h : r.Counts tp id)
    (hfollows : r.state.Follows configs)
    (hlimit : 0 ≤ tp.fireCount)
    (hserves : r.state.Serves (r.state.waiting ++ r.state.index.actions) fired t)
    (ha : a ∈ r.state.index.actions)
    (hof : a.isOf tp id = true) :
    (r.afterFiring t fired).Counts tp id := by
  have hindex : a ∈ t.index.actions := by
    rw [hserves.index]
    exact ha
  refine ⟨?_, recorded_le_of_serves hfollows hlimit hserves ha hof h.bounded, ?_, ?_⟩
  · have hbefore := AgentState.recorded_of_mem hfollows.ids ha hof
    have hafter := AgentState.recorded_of_mem (hfollows.serves hserves).ids hindex hof
    have hcount := FireLedger.count_of_fires hserves.ledger
      (hfollows.below a (List.mem_append_right _ ha))
    have hsplit := countP_fired hfollows ha hof hserves.fired
    have htotal := h.total
    dsimp only [afterFiring]
    rw [List.countP_append, List.countP_append, hafter, hcount, hsplit, htotal, hbefore]
    omega
  · intro habsent
    have hnone := habsent a hindex
    rw [hof] at hnone
    cases hnone
  · intro hovertaken
    obtain ⟨hstale, hcurrent⟩ := h.current hovertaken
    have hknown : ∀ b ∈ r.state.waiting ++ r.state.index.actions,
        b.isOf tp id = true → b ∈ r.state.index.actions := by
      intro b hb hbof
      rcases List.mem_append.1 hb with hwaits | hindex
      · exact hcurrent b hwaits hbof
      · exact hindex
    refine ⟨?_, fun b hb hbof => ?_⟩
    · dsimp only [afterFiring]
      rw [List.countP_append, hstale, Nat.zero_add, List.countP_eq_zero]
      intro b hb hbof
      obtain ⟨hmem, hout⟩ := List.mem_filter.1 hb
      exact absurd (hknown b (hserves.fired hmem) hbof) (by simpa using hout)
    · dsimp only [afterFiring]
      rw [hserves.index]
      exact hknown b (hserves.waiting hb) hbof

/-- An action that is not in the index does not wait either, and does not fire. -/
theorem Counts.event_of_absent
    (h : r.Counts tp id)
    (hlimit : 0 ≤ tp.fireCount)
    (hserves : r.state.Serves (r.state.waiting ++ r.state.index.actions) fired t)
    (habsent : ∀ a ∈ r.state.index.actions, a.isOf tp id = false) :
    (r.afterFiring t fired).Counts tp id := by
  obtain ⟨hwaiting, hnone⟩ := h.absent habsent
  have hknown : ∀ b ∈ r.state.waiting ++ r.state.index.actions, b.isOf tp id = false := by
    intro b hb
    rcases List.mem_append.1 hb with hwaits | hin
    · exact hwaiting b hwaits
    · exact habsent b hin
  have hzero : ∀ more ⊆ fired, more.countP (Action.isOf tp id) = 0 := by
    intro more hmore
    rw [List.countP_eq_zero]
    intro b hb
    rw [hknown b (hserves.fired (hmore hb))]
    exact Bool.false_ne_true
  have hfired := hzero fired (List.Subset.refl _)
  have hstale := hzero (fired.filter fun a => a ∉ r.state.index.actions)
    fun _ hb => (List.mem_filter.1 hb).1
  have hbefore : r.state.recorded tp id = 0 := AgentState.recorded_of_absent habsent
  have hafter : t.recorded tp id = 0 :=
    AgentState.recorded_of_absent (by rw [hserves.index]; exact habsent)
  refine ⟨?_, ?_, fun _ => ⟨?_, ?_⟩, fun hovertaken => ⟨?_, ?_⟩⟩
  · have htotal := h.total
    dsimp only [afterFiring]
    rw [List.countP_append, List.countP_append, hfired, hstale, htotal, hbefore, hafter]
    omega
  · dsimp only [afterFiring]
    rw [hafter]
    exact hlimit
  · exact fun b hb => hknown b (hserves.waiting hb)
  · dsimp only [afterFiring]
    rw [List.countP_append, hnone, hfired]
  · dsimp only [afterFiring]
    rw [List.countP_append, (h.current hovertaken).1, hstale]
  · intro b hb hbof
    rw [hknown b (hserves.waiting hb)] at hbof
    cases hbof

/-- An event keeps the balance of firings, records and overtaken actions. -/
theorem Counts.event
    (h : r.Counts tp id)
    (hfollows : r.state.Follows configs)
    (hlimit : 0 ≤ tp.fireCount)
    (hserves : r.state.Serves (r.state.waiting ++ r.state.index.actions) fired t) :
    (r.afterFiring t fired).Counts tp id := by
  rcases r.state.mem_or_absent tp id with ⟨a, ha, hof⟩ | habsent
  · exact h.event_of_mem hfollows hlimit hserves ha hof
  · exact h.event_of_absent hlimit hserves habsent

end Event

/-- A rebuilt index has the action again, with what the old one had on record. -/
theorem recorded_newConfig
    {tps : List Tracepoint} {a : Action}
    (hfollows : r.state.Follows configs)
    (hdistinct : (tps.map Tracepoint.id).Nodup)
    (hstays : ∀ earlier ∈ configs, tp ∈ earlier → tp ∈ tps)
    (ha : a ∈ r.state.index.actions)
    (hof : a.isOf tp id = true) :
    ∃ b ∈ (r.state.newConfig tps).index.actions,
      b.isOf tp id = true ∧
        (r.state.newConfig tps).recorded tp id = (r.state.ledger.read a.key).count := by
  obtain ⟨hindex, hledger, _⟩ := AgentState.newConfig_eq tps r.state
  obtain ⟨htracepoint, hid⟩ := AgentState.of_isOf hof
  obtain ⟨⟨earlier, hearlier, hmem⟩, haccepts, n, hn, hname⟩ := hfollows.origin a ha
  rw [htracepoint] at hmem haccepts hn hname
  obtain ⟨b, hb, hbid, hbtracepoint⟩ :=
    TriggerIndex.exists_mem_bound (hstays earlier hearlier hmem) haccepts hn r.state.ledger.next
  have hbuilt : b ∈ (TriggerIndex.build r.state.ledger.next tps).actions :=
    (TriggerIndex.perm_actions_build _ _).mem_iff.2 hb
  have hsame : a.id = b.id := by
    rw [hname, hbid]
  have hbof : b.isOf tp id = true := by
    simp [Action.isOf, hbtracepoint, ← hsame, hid]
  have hpredecessor : r.state.index.predecessor? b = some a :=
    TriggerIndex.predecessor?_eq_some hfollows.ids ha hsame
      (htracepoint.trans hbtracepoint.symm)
  have hread := TriggerIndex.read_rebuild_of_mem
    (fun old hold => hfollows.below old (List.mem_append_right _ hold)) hbuilt
  rw [hpredecessor] at hread
  have hnew : b ∈ (r.state.newConfig tps).index.actions := by
    rw [hindex]
    exact hbuilt
  refine ⟨b, hnew, hbof, ?_⟩
  rw [AgentState.recorded_of_mem (AgentState.follows_newConfig hfollows hdistinct).ids hnew hbof,
    hledger, hread]

/-- An action that the old index did not have begins without firings on record. -/
theorem recorded_newConfig_of_absent
    {tps : List Tracepoint}
    (hfollows : r.state.Follows configs)
    (hdistinct : (tps.map Tracepoint.id).Nodup)
    (habsent : ∀ a ∈ r.state.index.actions, a.isOf tp id = false) :
    (r.state.newConfig tps).recorded tp id = 0 := by
  obtain ⟨hindex, hledger, _⟩ := AgentState.newConfig_eq tps r.state
  rcases (r.state.newConfig tps).mem_or_absent tp id with ⟨b, hb, hbof⟩ | hnone
  · have hbuilt : b ∈ (TriggerIndex.build r.state.ledger.next tps).actions := by
      rw [hindex] at hb
      exact hb
    obtain ⟨htracepoint, hid⟩ := AgentState.of_isOf hbof
    have hpredecessor : r.state.index.predecessor? b = none := by
      refine TriggerIndex.predecessor?_eq_none ?_
      rintro x hx ⟨hxid, hxtracepoint⟩
      have hxof := habsent x hx
      simp [Action.isOf, hxid, hxtracepoint, hid, htracepoint] at hxof
    have hread := TriggerIndex.read_rebuild_of_mem
      (fun old hold => hfollows.below old (List.mem_append_right _ hold)) hbuilt
    rw [hpredecessor] at hread
    rw [AgentState.recorded_of_mem (AgentState.follows_newConfig hfollows hdistinct).ids hb hbof,
      hledger, hread]
    rfl
  · exact AgentState.recorded_of_absent hnone

/-- A new configuration keeps the balance: records of tracepoints that stay are carried over. -/
theorem Counts.update
    {tps : List Tracepoint}
    (h : r.Counts tp id)
    (hfollows : r.state.Follows configs)
    (hlimit : 0 ≤ tp.fireCount)
    (hdistinct : (tps.map Tracepoint.id).Nodup)
    (hstays : ∀ earlier ∈ configs, tp ∈ earlier → tp ∈ tps) :
    Counts tp id
      { r with
        state := r.state.newConfig tps
        overtaken := r.overtaken ++ r.state.waiting } := by
  have hwaiting := (AgentState.newConfig_eq tps r.state).2.2
  have hcurrent :
      (∀ a ∈ r.overtaken ++ r.state.waiting, a.isOf tp id = false) →
        r.stale.countP (Action.isOf tp id) = 0 ∧
          ∀ a ∈ (r.state.newConfig tps).waiting, a.isOf tp id = true →
            a ∈ (r.state.newConfig tps).index.actions := by
    intro hovertaken
    refine ⟨(h.current fun a ha => hovertaken a (List.mem_append_left _ ha)).1, ?_⟩
    intro a ha hof
    rw [hwaiting] at ha
    rw [hovertaken a (List.mem_append_right _ ha)] at hof
    cases hof
  rcases r.state.mem_or_absent tp id with ⟨a, ha, hof⟩ | hindex
  · have hbefore := AgentState.recorded_of_mem hfollows.ids ha hof
    obtain ⟨b, hb, hbof, hafter⟩ := recorded_newConfig hfollows hdistinct hstays ha hof
    refine ⟨?_, ?_, ?_, hcurrent⟩
    · dsimp only
      rw [h.total, hbefore, hafter]
    · have hbound := h.bounded
      dsimp only
      rwa [hafter, ← hbefore]
    · intro habsent
      rw [habsent b hb] at hbof
      cases hbof
  · obtain ⟨hnone, hfired⟩ := h.absent hindex
    have hbefore : r.state.recorded tp id = 0 := AgentState.recorded_of_absent hindex
    have hafter := recorded_newConfig_of_absent hfollows hdistinct hindex
    refine ⟨?_, ?_, fun _ => ⟨?_, hfired⟩, hcurrent⟩
    · dsimp only
      rw [h.total, hbefore, hafter]
    · dsimp only
      rw [hafter]
      exact hlimit
    · dsimp only
      rw [hwaiting]
      exact hnone

end Steps

/-! ### Runs -/

/-- The balance and the history hold after any steps. -/
theorem invariant_ofSteps
    (c : Collaborators) (heap : Heap) (pool : TaskPool Snapshot) (steps : List HookStep)
    {tp : Tracepoint}
    (id : String)
    (hdistinct : ∀ tps ∈ HookStep.configs steps, (tps.map Tracepoint.id).Nodup)
    (hstays : (HookStep.configs steps).Pairwise fun earlier later => tp ∈ earlier → tp ∈ later)
    (hlimit : 0 ≤ tp.fireCount) :
    (ofSteps c heap pool steps).state.Follows (HookStep.configs steps) ∧
      (ofSteps c heap pool steps).Counts tp id := by
  induction steps using List.reverseRecOn with
  | nil =>
      exact ⟨AgentState.follows_initial heap pool, counts_begin hlimit id heap pool⟩
  | append_singleton steps step ih =>
      have hconfigs : HookStep.configs (steps ++ [step]) =
          HookStep.configs steps ++ HookStep.configs [step] := by
        unfold HookStep.configs
        rw [List.filterMap_append]
      rw [hconfigs] at hdistinct hstays ⊢
      obtain ⟨hbefore, _, hacross⟩ := List.pairwise_append.1 hstays
      obtain ⟨hfollows, hcounts⟩ :=
        ih (fun tps htps => hdistinct tps (List.mem_append_left _ htps)) hbefore
      rw [ofSteps_append_singleton]
      cases step with
      | event values event frame =>
          have htraced := AgentState.serves_traceCall c event frame
            { (ofSteps c heap pool steps).state with heap := values }
          -- The values are no part of what is served.
          have hserves : (ofSteps c heap pool steps).state.Serves _ _ _ :=
            ⟨htraced.index, htraced.ledger, htraced.fired, htraced.waiting⟩
          have hrest : HookStep.configs [.event values event frame] = [] := rfl
          rw [hrest, List.append_nil]
          exact ⟨hfollows.serves hserves, hcounts.event hfollows hlimit hserves⟩
      | update tps =>
          have hrest : HookStep.configs [.update tps] = [tps] := rfl
          rw [hrest] at hdistinct hacross ⊢
          have hnodup := hdistinct tps (List.mem_append_right _ List.mem_cons_self)
          refine ⟨AgentState.follows_newConfig hfollows hnodup, ?_⟩
          exact hcounts.update hfollows hlimit hnodup fun earlier hearlier =>
            hacross earlier hearlier tps List.mem_cons_self

/-- An action with a limit fires as often as the record of it says, and beyond that as often as
actions fire that were still waiting when a configuration overtook them. It stays within its limit
just if these do not carry it beyond. -/
theorem fires_within_limit_iff
    (c : Collaborators) (heap : Heap) (pool : TaskPool Snapshot) (steps : List HookStep)
    (tp : Tracepoint) (id : String)
    (hdistinct : ∀ tps ∈ HookStep.configs steps, (tps.map Tracepoint.id).Nodup)
    (hstays : (HookStep.configs steps).Pairwise fun earlier later => tp ∈ earlier → tp ∈ later)
    (hlimit : 0 ≤ tp.fireCount) :
    let r := ofSteps c heap pool steps
    let fired := r.fired.countP (Action.isOf tp id)
    let stale := r.stale.countP (Action.isOf tp id)
    fired = r.state.recorded tp id + stale ∧
      (r.state.recorded tp id : Int) ≤ tp.fireCount ∧
      ((fired : Int) ≤ tp.fireCount ↔ (stale : Int) ≤ tp.fireCount - r.state.recorded tp id) ∧
      ((∀ a ∈ r.overtaken, a.isOf tp id = false) → (fired : Int) ≤ tp.fireCount) := by
  intro r fired stale
  obtain ⟨_, hcounts⟩ := invariant_ofSteps c heap pool steps id hdistinct hstays hlimit
  have htotal : fired = r.state.recorded tp id + stale := hcounts.total
  have hbounded : (r.state.recorded tp id : Int) ≤ tp.fireCount := hcounts.bounded
  refine ⟨htotal, hbounded, ?_, ?_⟩
  · constructor
    · intro hfired
      omega
    · intro hstale
      omega
  · intro hovertaken
    have hnone : stale = 0 := (hcounts.current hovertaken).1
    omega

/-- A message at the end of a line, once at most. -/
def lineEnd : Tracepoint :=
  ⟨"tp", "handler.py", 3,
    .ofList [("stage", "line_end"), ("fire_count", "1"), ("fire_period", "0"), ("log_msg", "hit"),
      ("snapshot", "no_collect")], [], []⟩

/-- One activation at a line. -/
def handlerAt (line : UInt32) : HostFrame :=
  ⟨⟨"/srv/app/handler.py", "handle", line, 1, some [], none, false, none⟩, []⟩

/-- The line is passed twice; an update without changes comes before it first ends. -/
def overtakingSteps : List HookStep :=
  [.update [lineEnd], .event .empty .line (handlerAt 3), .update [lineEnd],
    .event .empty .line (handlerAt 4), .event .empty .line (handlerAt 3),
    .event .empty .line (handlerAt 4)]

theorem fires_within_limit_iff_overtaken :
    let r := ofSteps Firing.plainCollaborators .empty (.ofSize 1 1) overtakingSteps
    let fired := r.fired.countP (Action.isOf lineEnd "tp-log")
    let stale := r.stale.countP (Action.isOf lineEnd "tp-log")
    fired = r.state.recorded lineEnd "tp-log" + stale ∧
      (r.state.recorded lineEnd "tp-log" : Int) ≤ lineEnd.fireCount ∧
      ((fired : Int) ≤ lineEnd.fireCount ↔
        (stale : Int) ≤ lineEnd.fireCount - r.state.recorded lineEnd "tp-log") ∧
      ((∀ a ∈ r.overtaken, a.isOf lineEnd "tp-log" = false) →
        (fired : Int) ≤ lineEnd.fireCount) := by
  have hdistinct :
      ∀ tps ∈ HookStep.configs overtakingSteps, (tps.map Tracepoint.id).Nodup := by
    decide
  have hstays :
      (HookStep.configs overtakingSteps).Pairwise fun earlier later =>
        lineEnd ∈ earlier → lineEnd ∈ later := by
    simp [HookStep.configs, overtakingSteps]
  have hlimit : 0 ≤ lineEnd.fireCount := by
    decide +kernel
  exact fires_within_limit_iff Firing.plainCollaborators .empty (.ofSize 1 1) overtakingSteps
    lineEnd "tp-log" hdistinct hstays hlimit

theorem overtaken_fires_twice :
    (∀ tps ∈ HookStep.configs overtakingSteps, (tps.map Tracepoint.id).Nodup) ∧
      ((HookStep.configs overtakingSteps).Pairwise fun earlier later =>
        lineEnd ∈ earlier → lineEnd ∈ later) ∧
      lineEnd.fireCount = 1 ∧
      (ofSteps Firing.plainCollaborators .empty (.ofSize 1 1) overtakingSteps).fired.countP
        (Action.isOf lineEnd "tp-log") = 2 := by
  refine ⟨?_, ?_, ?_, ?_⟩
  · decide
  · simp [HookStep.configs, overtakingSteps]
  · decide +kernel
  · decide +kernel

end HookRun
end LiveProbe
