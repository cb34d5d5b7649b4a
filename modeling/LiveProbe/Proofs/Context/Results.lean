import Mathlib.Data.List.Forall2
import LiveProbe.Proofs.Agent.Firings
import LiveProbe.Proofs.Context.Spans

/-!
# Results of actions

What is left in a context, and what is on record, of the actions that fired in it.

**Specification.**  An action that fires leaves one result, of its own kind and for its own
tracepoint (`Action.Leaves`).  One that is refused, whose condition does not hold, that
fails or that panics leaves none.

**Results.**
* `leavesAt_processAction`: every action leaves a result if it succeeds, and only then.
* `leaves_process`: processing leaves the results of the actions that fire, in their order.
* `read_process`, `fired_eq_filter`: of distinct actions those fired whose statistics
  changed, by one firing at the time of the context.
-/

namespace LiveProbe

/-! ### Specification -/

/-- The processors that open a span for a request, in the order in which they are asked. -/
def Plugins.openers (p : Plugins) (request : SpanRequest) : List Nat :=
  (p.activeSpans.filter fun s => s.1.answer request = .opened).map Prod.snd

/-- What the processors are asked for on behalf of a tracepoint. -/
def TriggerContext.spanRequest (x : TriggerContext) (tp : Tracepoint) (spanType : SpanType)
    (name : Option String) : SpanRequest :=
  ⟨Acting.spanName x.frame spanType name, x.id, tp.id, Acting.spanAttributes x.frame tp⟩

/-- A result that an action may leave when it fires in a context. -/
def Action.Leaves (c : Collaborators) (x : TriggerContext) (a : Action) (r : ActionResult) :
    Prop :=
  match a.config with
  | .snapshot => ∃ s, r = .snapshot s ∧ s.tracepoint = a.tracepoint
  | .log _ => ∃ text, r = .log a.tracepoint.id (Limits.logLead ++ text)
  | .metric _ => r = .metric a.tracepoint.id
  | .span spanType name =>
      ∃ handles, handles ≠ [] ∧
        handles.map SpanHandle.processor =
          c.plugins.openers (x.spanRequest a.tracepoint spanType name) ∧
        r = .span a.tracepoint.id handles (Acting.closeOn x spanType)

@[simp] theorem Snapshot.tracepoint_setAttribute
    (s : Snapshot) (key : String) (value : AttributeValue) :
    (s.setAttribute key value).tracepoint = s.tracepoint :=
  rfl

@[simp] theorem Snapshot.tracepoint_setText
    (s : Snapshot) (key value : String) :
    (s.setText key value).tracepoint = s.tracepoint :=
  rfl

/-- Contexts of one occasion and with the same bounds. -/
structure TriggerContext.Alike (x y : TriggerContext) : Prop where
  id : y.id = x.id
  ts : y.ts = x.ts
  event : y.event = x.event
  frame : y.frame = x.frame
  config : y.config = x.config

namespace TriggerContext

variable {x y z : TriggerContext}

theorem alike_refl
    (x : TriggerContext) :
    x.Alike x :=
  ⟨rfl, rfl, rfl, rfl, rfl⟩

theorem Alike.trans
    (h : x.Alike y)
    (h' : y.Alike z) :
    x.Alike z :=
  ⟨h'.id.trans h.id, h'.ts.trans h.ts, h'.event.trans h.event, h'.frame.trans h.frame,
    h'.config.trans h.config⟩

/-- What an action has to leave depends on the occasion alone. -/
theorem Alike.leaves_eq
    (h : x.Alike y)
    (c : Collaborators) :
    Action.Leaves c y = Action.Leaves c x := by
  funext a r
  simp only [Action.Leaves, spanRequest, Acting.closeOn, h.id, h.event, h.frame]

end TriggerContext

/-! ### Steps -/

/-- What holds across the opening of a span holds along the opening of all. -/
theorem Acting.within_openSpans
    {R : Firing → Firing → Prop}
    (hR : Prepares R)
    (hopen : ∀ (f : Firing) (processor : Nat) (request : SpanRequest),
        R f { f with agent := (f.agent.openSpan processor request).2 })
    (request : SpanRequest) (processors : List (SpanProcessor × Nat)) :
    Within R (openSpans request processors) := by
  induction processors with
  | nil =>
      exact within_pure hR []
  | cons p rest ih =>
      unfold openSpans
      split
      · exact ih
      · exact within_failure hR
      · refine within_get fun f => within_set hR (hopen f p.2 request) ?_
        exact within_bind hR ih fun handles => within_pure hR _

namespace Firing

/-- The occasion and the results stay as they are. -/
structure Stays (f g : Firing) : Prop where
  alike : f.context.Alike g.context
  results : g.context.results = f.context.results

/-- One result is left, of which the property holds. -/
structure Adds (P : ActionResult → Prop) (f g : Firing) : Prop where
  alike : f.context.Alike g.context
  results : ∃ r, P r ∧ g.context.results = f.context.results ++ [r]

variable {f g k : Firing} {P : ActionResult → Prop}

theorem stays_refl
    (f : Firing) :
    f.Stays f :=
  ⟨f.context.alike_refl, rfl⟩

theorem Stays.trans
    (h : f.Stays g)
    (h' : g.Stays k) :
    f.Stays k :=
  ⟨h.alike.trans h'.alike, h'.results.trans h.results⟩

/-- A result may be left after steps that leave none. -/
theorem Stays.adds
    (h : f.Stays g)
    (h' : g.Adds P k) :
    f.Adds P k := by
  refine ⟨h.alike.trans h'.alike, ?_⟩
  rw [← h.results]
  exact h'.results

/-- None of the small changes before a result leaves one. -/
theorem prepares_stays :
    Acting.Prepares Stays where
  refl := stays_refl
  trans := Stays.trans
  heap := fun _ _ => ⟨⟨rfl, rfl, rfl, rfl, rfl⟩, rfl⟩
  captures := fun _ _ => ⟨⟨rfl, rfl, rfl, rfl, rfl⟩, rfl⟩
  emit := fun _ _ => ⟨⟨rfl, rfl, rfl, rfl, rfl⟩, rfl⟩
  capture := fun _ _ _ => ⟨⟨rfl, rfl, rfl, rfl, rfl⟩, rfl⟩
  attach := fun _ _ _ => ⟨⟨rfl, rfl, rfl, rfl, rfl⟩, rfl⟩
  report := fun _ _ => ⟨⟨rfl, rfl, rfl, rfl, rfl⟩, rfl⟩
  enter := fun _ _ _ => ⟨⟨rfl, rfl, rfl, rfl, rfl⟩, rfl⟩

end Firing

namespace Acting

/-- From this state the step leaves one result, of which the property holds, if it ends with
success, and else none. -/
def LeavesAt (f : Firing) (P : ActionResult → Prop) (m : Acting Bool) : Prop :=
  match m.run.run f with
  | (some true, g) => f.Adds P g
  | (_, g) => f.Stays g

variable {f : Firing} {P : ActionResult → Prop} {α : Type}

theorem leavesAt_false :
    LeavesAt f P (pure false) :=
  f.stays_refl

/-- A result is left as the last step. -/
theorem leavesAt_leave
    {r : ActionResult}
    (hr : P r) :
    LeavesAt f P (do modify fun f => f.leave r; return true) :=
  ⟨⟨rfl, rfl, rfl, rfl, rfl⟩, r, hr, rfl⟩

/-- Steps that leave nothing come before the one that leaves the result. -/
theorem leavesAt_bind
    {m : Acting α} {k : α → Acting Bool}
    (hm : Within Firing.Stays m)
    (hk : ∀ a g, m.run.run f = (some a, g) → f.Stays g → LeavesAt g P (k a)) :
    LeavesAt f P (m >>= k) := by
  have hfirst := hm f
  unfold LeavesAt
  rw [run_bind]
  rcases hrun : m.run.run f with ⟨_ | a, g⟩ <;> rw [hrun] at hfirst
  · exact hfirst
  · have hrest := hk a g hrun hfirst
    unfold LeavesAt at hrest
    dsimp only
    rcases hlast : (k a).run.run g with ⟨_ | _ | _, k⟩ <;> rw [hlast] at hrest
    · exact hfirst.trans hrest
    · exact hfirst.trans hrest
    · exact hfirst.adds hrest

/-! ### Kinds of actions -/

variable (c : Collaborators)

/-- Attributes do not change the tracepoint of a snapshot. -/
theorem tracepoint_withAttributes
    (x : TriggerContext) (tp : Tracepoint) (s : Snapshot) :
    (withAttributes x tp s).tracepoint = s.tracepoint := by
  have hfold : ∀ (attributes : List (String × String)) (s : Snapshot),
      (attributes.foldl (fun s a => s.setText a.1 a.2) s).tracepoint = s.tracepoint := by
    intro attributes
    induction attributes with
    | nil => exact fun _ => rfl
    | cons a rest ih => exact fun s => ih (s.setText a.1 a.2)
  simp only [withAttributes, hfold, Snapshot.tracepoint_setText, Snapshot.tracepoint_setAttribute]

/-- A snapshot action leaves a snapshot of its tracepoint. -/
theorem leavesAt_processSnapshot
    (tp : Tracepoint) :
    LeavesAt f (fun r => ∃ s, r = .snapshot s ∧ s.tracepoint = tp) (processSnapshot c tp) := by
  have hprep := Firing.prepares_stays
  refine leavesAt_bind (within_beginSnapshot hprep c tp) fun snapshot g hbegun _ => ?_
  have htp : snapshot.tracepoint = tp := by
    obtain ⟨hsnapshot, _⟩ := Prod.mk.inj hbegun
    rw [← Option.some.inj hsnapshot]
    rfl
  refine leavesAt_bind (within_collectFrames hprep c) fun frames g _ _ => ?_
  refine leavesAt_bind (within_mapM hprep fun expression => within_watch hprep c expression .watch)
    fun watches g _ _ => ?_
  exact leavesAt_leave ⟨_, rfl, (tracepoint_withAttributes _ _ _).trans htp⟩

/-- A message action leaves a message with the lead. -/
theorem leavesAt_processLog
    (tp : Tracepoint) (template : String) :
    LeavesAt f (fun r => ∃ text, r = .log tp.id (Limits.logLead ++ text))
      (processLog c tp template) :=
  leavesAt_bind (within_formatLog Firing.prepares_stays c tp template) fun text _ _ _ =>
    leavesAt_leave ⟨text, rfl⟩

/-- A metric action leaves its tracepoint, if there is a value. -/
theorem leavesAt_processMetric
    (tp : Tracepoint) (m : MetricDefinition) :
    LeavesAt f (fun r => r = .metric tp.id) (processMetric c tp m) := by
  have hprep := Firing.prepares_stays
  refine leavesAt_bind (within_metricValue hprep c tp m) fun value g _ _ => ?_
  cases value with
  | none => exact leavesAt_false
  | some value =>
      refine leavesAt_bind (within_labels hprep c m) fun text g _ _ => ?_
      refine leavesAt_bind (prepares_emitAll hprep _ _ c.plugins.activeMetrics) fun _ g _ _ => ?_
      exact leavesAt_leave rfl

/-- Each processor that opens a span accounts for one handle. -/
theorem processors_openSpans
    {request : SpanRequest} {processors : List (SpanProcessor × Nat)} {g : Firing}
    {handles : List SpanHandle}
    (hrun : (openSpans request processors).run.run f = (some handles, g)) :
    handles.map SpanHandle.processor =
      (processors.filter fun s => s.1.answer request = .opened).map Prod.snd := by
  induction processors generalizing f g handles with
  | nil =>
      obtain ⟨hhandles, _⟩ := Prod.mk.inj hrun
      rw [← Option.some.inj hhandles]
      rfl
  | cons p rest ih =>
      rw [run_openSpans_cons] at hrun
      rcases hasked : p.1.answer request with _ | _ | _ <;> rw [hasked] at hrun
      · rw [List.filter_cons_of_pos (by simp [hasked]), List.map_cons]
        rcases hrest : (openSpans request rest).run.run
          { f with agent := (f.agent.openSpan p.2 request).2 } with ⟨_ | more, k⟩ <;>
          rw [hrest] at hrun
        · cases hrun
        · obtain ⟨hhandles, _⟩ := Prod.mk.inj hrun
          rw [← Option.some.inj hhandles, List.map_cons, ih hrest]
          rfl
      · rw [List.filter_cons_of_neg (by simp [hasked])]
        exact ih hrun
      · cases hrun

/-- A span action leaves the handles of the processors that open a span, if there are any. -/
theorem leavesAt_processSpan
    (tp : Tracepoint) (spanType : SpanType) (name : Option String) :
    LeavesAt f
      (fun r => ∃ handles, handles ≠ [] ∧
        handles.map SpanHandle.processor =
          c.plugins.openers (f.context.spanRequest tp spanType name) ∧
        r = .span tp.id handles (closeOn f.context spanType))
      (processSpan c tp spanType name) := by
  have hopen := within_openSpans Firing.prepares_stays
    (fun _ _ _ => ⟨⟨rfl, rfl, rfl, rfl, rfl⟩, rfl⟩)
    (f.context.spanRequest tp spanType name) c.plugins.activeSpans
  refine leavesAt_bind (m := get) Firing.stays_refl fun _ _ hget _ => ?_
  obtain ⟨hread, rfl⟩ := Prod.mk.inj hget
  obtain rfl := Option.some.inj hread
  refine leavesAt_bind hopen fun handles g hrun _ => ?_
  split
  · exact leavesAt_false
  · next hsome =>
      refine leavesAt_leave ⟨handles, ?_, processors_openSpans hrun, rfl⟩
      simpa using hsome

/-! ### All actions -/

theorem leavesAt_perform
    (a : Action) :
    LeavesAt f (a.Leaves c f.context) (perform c a) := by
  unfold perform Action.Leaves
  cases a.config with
  | snapshot => exact leavesAt_processSnapshot c a.tracepoint
  | log template => exact leavesAt_processLog c a.tracepoint template
  | metric definition => exact leavesAt_processMetric c a.tracepoint definition
  | span spanType name => exact leavesAt_processSpan c a.tracepoint spanType name

theorem leavesAt_processAction
    (a : Action) :
    LeavesAt f (a.Leaves c f.context) (processAction c a) := by
  have hprep := Firing.prepares_stays
  have henter : ∀ state : ContextState, state ≠ .closed →
      Within Firing.Stays (modify fun f => f.enter state) :=
    fun state hstate f => hprep.enter f state hstate
  refine leavesAt_bind (henter .evaluating (by decide)) fun _ g _ hfirst => ?_
  refine leavesAt_bind (within_conditionMet hprep c a) fun holds k _ hcondition => ?_
  split
  · refine leavesAt_bind (henter .processing (by decide)) fun _ l _ hlast => ?_
    have halike := (hfirst.trans (hcondition.trans hlast)).alike
    rw [← halike.leaves_eq c]
    exact leavesAt_perform c a
  · exact leavesAt_false

end Acting

/-! ### Firing -/

namespace Firing

variable (c : Collaborators)

/-- An action leaves its result exactly if it fires. -/
theorem leaves_fire
    (a : Action) (f : Firing) :
    if (f.fire c a).1 then f.Adds (a.Leaves c f.context) (f.fire c a).2
    else f.Stays (f.fire c a).2 := by
  have hleaves := Acting.leavesAt_processAction (f := f) c a
  unfold Acting.LeavesAt at hleaves
  unfold fire contain
  rcases f.refusal? a with _ | reason
  · dsimp only
    rcases hrun : (Acting.processAction c a).run.run f with ⟨_ | _ | _, g⟩ <;>
      rw [hrun] at hleaves
    · exact hleaves.trans (prepares_stays.report g _)
    · exact hleaves
    · exact ⟨hleaves.alike, hleaves.results⟩
  · exact f.stays_refl

/-- The results of the actions that fire are left in their order. -/
theorem leaves_process
    (actions : List Action) (f : Firing) :
    f.context.Alike (f.process c actions).2.context ∧
      ∃ new, (f.process c actions).2.context.results = f.context.results ++ new ∧
        List.Forall₂ (Action.Leaves c f.context) (f.fired c actions) new := by
  induction actions generalizing f with
  | nil =>
      exact ⟨f.context.alike_refl, [], (List.append_nil _).symm, .nil⟩
  | cons a rest ih =>
      have hfirst := leaves_fire c a f
      obtain ⟨halike, new, hresults, hnew⟩ := ih (f.fire c a).2
      unfold fired
      by_cases hfires : (f.fire c a).1 = true
      · rw [if_pos hfires] at hfirst ⊢
        obtain ⟨r, hr, hadded⟩ := hfirst.results
        refine ⟨hfirst.alike.trans halike, r :: new, ?_, .cons hr ?_⟩
        · refine hresults.trans ?_
          rw [hadded, List.append_assoc, List.singleton_append]
        · rwa [hfirst.alike.leaves_eq c] at hnew
      · rw [if_neg hfires] at hfirst ⊢
        refine ⟨hfirst.alike.trans halike, new, ?_, ?_⟩
        · exact hresults.trans (by rw [hfirst.results])
        · rwa [hfirst.alike.leaves_eq c] at hnew

/-- The count of a processing is that of the firings. -/
theorem fst_process
    (actions : List Action) (f : Firing) :
    (f.process c actions).1 = (f.fired c actions).length := by
  induction actions generalizing f with
  | nil =>
      rfl
  | cons a rest ih =>
      have hcount : (f.process c (a :: rest)).1 =
          ((f.fire c a).2.process c rest).1 + (f.fire c a).1.toNat := rfl
      rw [hcount, ih, fired]
      by_cases hfires : (f.fire c a).1 = true <;> simp [hfires]

/-! ### Record -/

/-- A firing is recorded at the time of the context, and nothing else is. -/
theorem ledger_fire
    (a : Action) (f : Firing) :
    (f.fire c a).2.agent.ledger =
      if (f.fire c a).1 then f.agent.ledger.record a.key f.context.ts else f.agent.ledger := by
  obtain ⟨hkeeps, hledger, _⟩ := contain_processAction c a f
  unfold fire
  rcases f.refusal? a with _ | reason
  · rcases hrun : f.contain (Acting.processAction c a) with ⟨_ | _, g⟩ <;>
      rw [hrun] at hkeeps hledger
    · exact hledger
    · have hrecorded : (g.record a).agent.ledger = g.agent.ledger.record a.key g.context.ts := rfl
      have hts : g.context.ts = f.context.ts := hkeeps.ts
      have hsame : g.agent.ledger = f.agent.ledger := hledger
      rw [hts, hsame] at hrecorded
      exact hrecorded
  · rfl

theorem sublist_fired
    (actions : List Action) (f : Firing) :
    (f.fired c actions).Sublist actions := by
  induction actions generalizing f with
  | nil =>
      exact List.Sublist.refl []
  | cons a rest ih =>
      unfold fired
      split
      · exact (ih _).cons_cons a
      · exact (ih _).cons a

/-- Of distinct actions each fires at most once, at the time of the context; nothing else
changes on record. -/
theorem read_process
    {actions : List Action} {f : Firing}
    (hkeys : (actions.map Action.key).Nodup)
    (hledger : ∀ a ∈ actions, a.key < f.agent.ledger.next)
    (key : Nat) :
    (f.process c actions).2.agent.ledger.read key =
      if key ∈ (f.fired c actions).map Action.key then
        (f.agent.ledger.read key).record f.context.ts
      else f.agent.ledger.read key := by
  induction actions generalizing f with
  | nil =>
      rfl
  | cons a rest ih =>
      rw [List.map_cons, List.nodup_cons] at hkeys
      have hnext : (f.fire c a).2.agent.ledger.next = f.agent.ledger.next := by
        rw [ledger_fire]
        split
        · exact FireLedger.next_record _ _ _
        · rfl
      have hrest := ih (f := (f.fire c a).2) hkeys.2 fun b hb => by
        rw [hnext]
        exact hledger b (List.mem_cons_of_mem a hb)
      have hts : (f.fire c a).2.context.ts = f.context.ts := (keeps_fire c a f).ts
      -- A later action is another one than this.
      have hlater : key ∈ ((f.fire c a).2.fired c rest).map Action.key → key ≠ a.key := by
        rintro hkey rfl
        exact hkeys.1 (((sublist_fired c rest _).map Action.key).subset hkey)
      have hread : (f.fire c a).2.agent.ledger.read key =
          if (f.fire c a).1 ∧ key = a.key then (f.agent.ledger.read key).record f.context.ts
          else f.agent.ledger.read key := by
        rw [ledger_fire]
        by_cases hfires : (f.fire c a).1 = true
        · rw [if_pos hfires]
          by_cases hkey : key = a.key
          · rw [if_pos ⟨hfires, hkey⟩, hkey]
            exact FireLedger.read_write_self _ _ (hledger a List.mem_cons_self)
          · rw [if_neg fun h => hkey h.2]
            exact FireLedger.read_write_of_ne _ _ (Ne.symm hkey)
        · rw [if_neg hfires, if_neg fun h => hfires h.1]
      refine hrest.trans ?_
      rw [hts, hread, fired]
      by_cases hkey : key = a.key
      · have hmem : key ∉ ((f.fire c a).2.fired c rest).map Action.key :=
          fun hmem => hlater hmem hkey
        by_cases hfires : (f.fire c a).1 = true <;> simp [hfires, hkey, hkey ▸ hmem]
      · by_cases hfires : (f.fire c a).1 = true <;> simp [hfires, hkey]

/-- With distinct keys, a choice of actions is told by its keys. -/
theorem filter_key_mem
    {chosen actions : List Action}
    (hsub : chosen.Sublist actions)
    (hkeys : (actions.map Action.key).Nodup) :
    (actions.filter fun a => a.key ∈ chosen.map Action.key) = chosen := by
  induction hsub with
  | slnil =>
      rfl
  | @cons chosen actions b hsub ih =>
      rw [List.map_cons, List.nodup_cons] at hkeys
      have hnot : b.key ∉ chosen.map Action.key :=
        fun hb => hkeys.1 ((hsub.map Action.key).subset hb)
      rw [List.filter_cons_of_neg (by simpa using hnot)]
      exact ih hkeys.2
  | @cons_cons chosen actions b hsub ih =>
      rw [List.map_cons, List.nodup_cons] at hkeys
      have hother : ∀ a ∈ actions, a.key ≠ b.key :=
        fun a ha hab => hkeys.1 (hab ▸ List.mem_map_of_mem ha)
      rw [List.filter_cons_of_pos (by simp)]
      refine congrArg (b :: ·) ((List.filter_congr fun a ha => ?_).trans (ih hkeys.2))
      simp only [List.map_cons, List.mem_cons, hother a ha, false_or]

/-- Of distinct actions just those fired whose count rose. -/
theorem fired_eq_filter
    {actions : List Action} {f : Firing}
    (hkeys : (actions.map Action.key).Nodup)
    (hledger : ∀ a ∈ actions, a.key < f.agent.ledger.next) :
    f.fired c actions =
      actions.filter fun a => (f.agent.ledger.read a.key).count <
        ((f.process c actions).2.agent.ledger.read a.key).count := by
  refine (filter_key_mem (sublist_fired c actions f) hkeys).symm.trans
    (List.filter_congr fun a _ => ?_)
  rw [read_process c hkeys hledger]
  by_cases hfired : a.key ∈ (f.fired c actions).map Action.key
  · rw [if_pos hfired]
    simp [hfired, FireStats.record]
  · rw [if_neg hfired]
    simp [hfired]

end Firing
end LiveProbe
