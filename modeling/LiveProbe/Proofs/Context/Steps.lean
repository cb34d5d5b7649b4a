import LiveProbe.Proofs.Context.Processing

/-!
# Relations along processing

What holds between the states before and after the processing of actions.

**Relations.**  Processing consists of small changes: values are evaluated, captured and
attached, metrics emitted, faults reported, results left and firings recorded.  A relation
between states that is reflexive and transitive and holds across each of them is *admitted*
(`Acting.Admits`).  What comes before a result is left only *prepares* it
(`Acting.Prepares`).

**Results.**
* `within_bind`, `within_get`, `within_mapM`: such relations hold along composed steps, also
  where these panic.
* `within_processAction`: they hold along every action, provided that they hold along the
  opening of spans.
* `admits_process`: they hold along the processing of actions.
-/

namespace LiveProbe
namespace Acting

/-- The relation holds across every small change that leads up to a result, but for the
opening of spans. -/
structure Prepares (R : Firing → Firing → Prop) : Prop where
  refl : ∀ f, R f f
  trans : ∀ {f g k}, R f g → R g k → R f k
  heap : ∀ f heap, R f { f with agent := { f.agent with heap := heap } }
  captures : ∀ f captures, R f { f with agent := { f.agent with captures := captures } }
  emit : ∀ f e, R f { f with agent := { f.agent with journal := f.agent.journal.emit e } }
  capture : ∀ f frames capture,
    R f { f with context := { f.context with frames := frames, capture := capture } }
  attach : ∀ f tracepoint w, R f (f.attach tracepoint w)
  report : ∀ f d, R f (f.report d)
  enter : ∀ f state, state ≠ .closed → R f (f.enter state)

/-- The relation holds across the leaving of results and the record of firings, too. -/
structure Admits (R : Firing → Firing → Prop) : Prop extends Prepares R where
  leave : ∀ f r, r.actionType ≠ .span → R f (f.leave r)
  record : ∀ f a, R f (f.record a)

/-- The relation holds along the step, from whatever state. -/
def Within (R : Firing → Firing → Prop) {α : Type} (m : Acting α) : Prop :=
  ∀ f, R f (m.run.run f).2

section Within

variable {R : Firing → Firing → Prop} (hR : Prepares R) {α β : Type}

include hR

/-! ### Composition -/

theorem within_pure
    (a : α) :
    Within R (pure a : Acting α) :=
  hR.refl

theorem within_failure :
    Within R (failure : Acting α) :=
  hR.refl

/-- A relation holds along composed steps, also up to a panic. -/
theorem within_bind
    {m : Acting α} {k : α → Acting β}
    (hm : Within R m)
    (hk : ∀ a, Within R (k a)) :
    Within R (m >>= k) := by
  intro f
  have hfirst := hm f
  rw [run_bind]
  rcases hrun : m.run.run f with ⟨_ | a, g⟩ <;> rw [hrun] at hfirst
  · exact hfirst
  · exact hR.trans hfirst (hk a g)

/-- A change that depends on the state at hand, and what comes after it. -/
theorem within_set
    {k : PUnit → Acting β} {f g : Firing}
    (hg : R f g)
    (hk : Within R (k ⟨⟩)) :
    R f (((set g : Acting PUnit) >>= k).run.run f).2 :=
  hR.trans hg (hk g)

theorem within_modify
    {u : Firing → Firing} {k : PUnit → Acting β}
    (hu : ∀ f, R f (u f))
    (hk : Within R (k ⟨⟩)) :
    Within R ((modify u : Acting PUnit) >>= k) :=
  fun f => hR.trans (hu f) (hk (u f))

omit hR in
theorem within_get
    {k : Firing → Acting β}
    (hk : ∀ f, R f ((k f).run.run f).2) :
    Within R (get >>= k) :=
  hk

theorem within_mapM
    {l : List α} {m : α → Acting β}
    (hm : ∀ a, Within R (m a)) :
    Within R (l.mapM m) := by
  induction l with
  | nil =>
      rw [List.mapM_nil]
      exact within_pure hR []
  | cons a rest ih =>
      rw [List.mapM_cons]
      exact within_bind hR (hm a) fun b => within_bind hR ih fun bs => within_pure hR _

/-! ### Expressions -/

variable (c : Collaborators)

theorem within_evaluate
    (expression : String) :
    Within R (evaluate c expression) := by
  refine within_get fun f => ?_
  rcases c.evaluate expression f.context.bindings f.agent.heap with ⟨r, heap⟩ | e | _
  · exact within_set hR (hR.heap f heap) (within_pure hR _)
  · exact within_pure hR _ f
  · exact within_failure hR f

theorem within_walkWatch
    (expression : String) (value : Ref) (source : WatchSource) :
    Within R (walkWatch expression value source) := by
  unfold walkWatch
  refine within_get fun f => ?_
  dsimp only
  rcases walkOne f.agent.heap f.context.config.walkLimits expression value
    f.context.capture.table f.context.capture.budget with ⟨id, table, budget⟩
  refine within_set hR (hR.capture f f.context.frames ⟨table, budget⟩) ?_
  cases id with
  | none => exact within_pure hR _
  | some id => exact within_pure hR _

theorem within_watch
    (expression : String) (source : WatchSource) :
    Within R (watch c expression source) := by
  refine within_bind hR (within_evaluate hR c expression) fun answer => ?_
  cases answer with
  | ok value => exact within_walkWatch hR expression value source
  | error e => exact within_pure hR _

theorem within_valueText
    (expression : String) :
    Within R (valueText c expression) := by
  refine within_bind hR (within_evaluate hR c expression) fun answer => ?_
  cases answer with
  | ok value => exact within_get fun f => within_pure hR _ f
  | error e => exact within_pure hR _

theorem within_conditionMet
    (a : Action) :
    Within R (conditionMet c a) := by
  unfold conditionMet
  rcases a.condition with _ | condition
  · exact within_pure hR true
  · refine within_bind hR (within_evaluate hR c condition) fun answer => ?_
    cases answer with
    | ok value => exact within_get fun f => within_pure hR _ f
    | error e => exact within_pure hR false

/-! ### Snapshots -/

theorem within_collectFrames :
    Within R (collectFrames c) := by
  refine within_get fun f => ?_
  dsimp only
  rcases f.context.frames with _ | frames
  · rcases Stack.collect f.agent.heap f.context.config c.inApp f.context.frame
      f.context.capture with ⟨frames, capture⟩
    refine within_set hR (hR.capture f frames capture) ?_
    cases frames with
    | none => exact within_failure hR
    | some frames => exact within_pure hR frames
  · exact within_pure hR frames f

theorem within_beginSnapshot
    (tp : Tracepoint) :
    Within R (beginSnapshot c tp) :=
  within_get fun f => within_set hR (hR.captures f _) (within_pure hR _)

/-! ### Messages -/

/-- What is attached where a snapshot is collected. -/
theorem within_attach
    (tp : Tracepoint) (w : WatchResult)
    {k : PUnit → Acting β}
    (hk : Within R (k ⟨⟩)) :
    Within R ((modify fun f => f.attach tp.id w : Acting PUnit) >>= k) :=
  within_modify hR (fun f => hR.attach f tp.id w) hk

/-- A segment is evaluated, and attached where a snapshot is collected. -/
theorem within_segmentText
    (tp : Tracepoint) (segment : Segment) :
    Within R (segmentText c tp segment) := by
  cases segment with
  | char ch => exact within_pure hR _
  | expression source =>
      refine within_bind hR (within_evaluate hR c source) fun answer => ?_
      cases answer with
      | ok value =>
          refine within_get fun f => ?_
          dsimp only
          split
          · refine within_bind hR (within_walkWatch hR source value .log) (fun w => ?_) f
            exact within_attach hR tp w (within_pure hR _)
          · exact within_pure hR _ f
      | error e =>
          dsimp only
          split
          · exact within_attach hR tp _ (within_pure hR _)
          · exact within_pure hR _

theorem within_formatLog
    (tp : Tracepoint) (template : String) :
    Within R (formatLog c tp template) :=
  within_bind hR (within_mapM hR fun segment => within_segmentText hR c tp segment)
    fun _ => within_pure hR _

/-! ### Metrics -/

/-- A metric is evaluated and attached, or reported. -/
theorem within_metricValue
    (tp : Tracepoint) (m : MetricDefinition) :
    Within R (metricValue c tp m) := by
  unfold metricValue
  rcases m.expression with _ | expression
  · exact within_pure hR _
  · refine within_bind hR (within_evaluate hR c expression) fun answer => ?_
    cases answer with
    | ok value =>
        refine within_get fun f => ?_
        have hnumber : ∀ number : Option Float,
            Within R (if number.isNone = true then do
              modify fun f => f.report .metricNotNumeric
              pure number else pure number) := by
          intro number
          split
          · exact within_modify hR (fun f => hR.report f _) (within_pure hR number)
          · exact within_pure hR number
        dsimp only
        split
        · refine within_bind hR (within_walkWatch hR expression value .metric) (fun w => ?_) f
          exact within_attach hR tp w (hnumber _)
        · exact hnumber _ f
    | error e =>
        refine within_modify hR (fun f => hR.report f _) ?_
        dsimp only
        split
        · exact within_attach hR tp _ (within_pure hR none)
        · exact within_pure hR none

theorem within_labels
    (m : MetricDefinition) :
    Within R (labels c m) := by
  have hlabel : ∀ l : LabelExpression, Within R (labelText c l) := by
    intro l
    unfold labelText
    split
    · exact within_pure hR _
    · exact within_valueText hR c _
    · exact within_pure hR ""
  have hpair : ∀ l : LabelExpression, Within R (do return (l.key, ← labelText c l)) :=
    fun l => within_bind hR (hlabel l) fun text => within_pure hR _
  exact within_bind hR (within_mapM hR hpair) fun pairs => within_pure hR _

omit c in
/-- Processors of metrics are called one after another. -/
theorem prepares_emitAll
    (t : MetricType) (sample : MetricSample) (processors : List (MetricProcessor × Nat))
    (f : Firing) :
    R f (processors.foldl (fun f p => emitTo t sample p f) f) := by
  induction processors generalizing f with
  | nil =>
      exact hR.refl f
  | cons p rest ih =>
      refine hR.trans ?_ (ih (emitTo t sample p f))
      have hemitted := hR.emit f ⟨p.2, t, sample⟩
      unfold emitTo
      dsimp only
      split
      · exact hR.trans hemitted (hR.report _ _)
      · exact hemitted

end Within

/-! ### All actions -/

section Actions

variable {R : Firing → Firing → Prop} (hR : Admits R) (c : Collaborators)

include hR

theorem within_processSnapshot
    (tp : Tracepoint) :
    Within R (processSnapshot c tp) := by
  refine within_bind hR.toPrepares (within_beginSnapshot hR.toPrepares c tp) fun snapshot => ?_
  refine within_bind hR.toPrepares (within_collectFrames hR.toPrepares c) fun frames => ?_
  refine within_bind hR.toPrepares
    (within_mapM hR.toPrepares fun expression => within_watch hR.toPrepares c expression .watch)
    fun watches => within_get fun f => ?_
  exact within_modify hR.toPrepares (fun g => hR.leave g _ (by simp [ActionResult.actionType]))
    (within_pure hR.toPrepares true) f

theorem within_processLog
    (tp : Tracepoint) (template : String) :
    Within R (processLog c tp template) := by
  refine within_bind hR.toPrepares (within_formatLog hR.toPrepares c tp template) fun message => ?_
  exact within_modify hR.toPrepares (fun f => hR.leave f _ (by simp [ActionResult.actionType]))
    (within_pure hR.toPrepares true)

theorem within_processMetric
    (tp : Tracepoint) (m : MetricDefinition) :
    Within R (processMetric c tp m) := by
  refine within_bind hR.toPrepares (within_metricValue hR.toPrepares c tp m) fun value => ?_
  cases value with
  | none => exact within_pure hR.toPrepares false
  | some value =>
      refine within_bind hR.toPrepares (within_labels hR.toPrepares c m) fun text => ?_
      refine within_modify hR.toPrepares (prepares_emitAll hR.toPrepares _ _ _) ?_
      exact within_modify hR.toPrepares (fun f => hR.leave f _ (by simp [ActionResult.actionType]))
        (within_pure hR.toPrepares true)

variable
  (hspan : ∀ (tp : Tracepoint) (spanType : SpanType) (name : Option String),
    Within R (processSpan c tp spanType name))

include hspan

/-- The relation holds along whatever an action is for. -/
theorem within_perform
    (a : Action) :
    Within R (perform c a) := by
  unfold perform
  cases a.config with
  | snapshot => exact within_processSnapshot hR c a.tracepoint
  | log template => exact within_processLog hR c a.tracepoint template
  | metric definition => exact within_processMetric hR c a.tracepoint definition
  | span spanType name => exact hspan a.tracepoint spanType name

theorem within_processAction
    (a : Action) :
    Within R (processAction c a) := by
  refine within_modify hR.toPrepares (fun f => hR.enter f _ (by simp)) ?_
  refine within_bind hR.toPrepares (within_conditionMet hR.toPrepares c a) fun holds => ?_
  split
  · exact within_modify hR.toPrepares (fun f => hR.enter f _ (by simp))
      (within_perform hR c hspan a)
  · exact within_pure hR.toPrepares false

theorem admits_fire
    (a : Action) (f : Firing) :
    R f (f.fire c a).2 := by
  have hcontained : R f (f.contain (processAction c a)).2 := by
    have hran := within_processAction hR c hspan a f
    unfold Firing.contain
    rcases hrun : (processAction c a).run.run f with ⟨_ | success, g⟩ <;> rw [hrun] at hran
    · exact hR.trans hran (hR.report g _)
    · exact hran
  unfold Firing.fire
  rcases f.refusal? a with _ | reason
  · dsimp only
    rcases hrun : f.contain (processAction c a) with ⟨_ | _, g⟩ <;> rw [hrun] at hcontained
    · exact hcontained
    · exact hR.trans hcontained (hR.record g a)
  · exact hR.refl f

theorem admits_process
    (actions : List Action) (f : Firing) :
    R f (f.process c actions).2 := by
  induction actions generalizing f with
  | nil =>
      exact hR.refl f
  | cons a rest ih =>
      exact hR.trans (admits_fire hR c hspan a f) (ih _)

end Actions

end Acting
end LiveProbe
