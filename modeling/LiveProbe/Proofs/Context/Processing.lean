import LiveProbe.Agent.Hook
import LiveProbe.Proofs.Variable.Capture

/-!
# What processing refers to

The references that a context holds while its actions are processed.

**Invariant.**  All references of a context, those in its frames, in the snapshots
among its results and in its attached expressions, are known to the lookup table,
which is numbered and closed (`Firing.Refers`).

**Specifications.**  A step of processing is *sound* if it keeps the invariant, even
where it panics, and if its answer refers to nothing that the table does not know
(`Acting.Sound`).  Steps compose: what the table knows it never forgets.

**Results.**
* `sound_bind`, `sound_mapM` and their companions: soundness of composed steps.
* `sound_processAction`: every action is sound, whatever its kind.
* `keeps_process`, `refers_process`: processing of actions keeps the invariant.
-/

namespace LiveProbe

theorem Captured.IsSound.subset
    {t : VariableTable} {roots fewer : List VariableId}
    (h : IsSound ⟨t, roots⟩)
    (hsub : fewer ⊆ roots) :
    IsSound ⟨t, fewer⟩ :=
  ⟨h.numbered, h.closed, fun root hroot => h.roots root (hsub hroot)⟩

/-! ### References of a context -/

/-- The reference of an expression whose value was recorded. -/
def WatchResult.roots (w : WatchResult) : List VariableId := w.value.toList

/-- The references in the frames and watches of a snapshot. -/
def Snapshot.roots (s : Snapshot) : List VariableId :=
  s.frames.flatMap StackFrame.locals ++ s.watches.flatMap WatchResult.roots

/-- The references of a result; only snapshots have any. -/
def ActionResult.roots : ActionResult → List VariableId
  | .snapshot s => s.roots
  | _ => []

@[simp] theorem Snapshot.roots_setAttribute
    (s : Snapshot) (key : String) (value : AttributeValue) :
    (s.setAttribute key value).roots = s.roots := rfl

@[simp] theorem Snapshot.roots_setText
    (s : Snapshot) (key value : String) :
    (s.setText key value).roots = s.roots := rfl

/-- The references that a context holds. -/
def TriggerContext.references (x : TriggerContext) : List VariableId :=
  (x.frames.getD []).flatMap StackFrame.locals ++ x.results.flatMap ActionResult.roots ++
    x.attached.flatMap fun a => a.2.roots

namespace Firing

/-- The lookup table of the context is numbered and closed, and knows the references of
the context and some others. -/
def Refers (f : Firing) (others : List VariableId) : Prop :=
  Captured.IsSound ⟨f.context.capture.table, f.context.references ++ others⟩

/-- What the processing of actions leaves alone. -/
structure Keeps (f g : Firing) : Prop where
  index : g.agent.index = f.agent.index
  callbacks : g.agent.callbacks = f.agent.callbacks
  pool : g.agent.pool = f.agent.pool
  snapshots : g.agent.journal.snapshots = f.agent.journal.snapshots
  ts : g.context.ts = f.context.ts

theorem keeps_refl
    (f : Firing) :
    f.Keeps f := ⟨rfl, rfl, rfl, rfl, rfl⟩

theorem Keeps.trans
    {f g k : Firing}
    (h : f.Keeps g)
    (h' : g.Keeps k) :
    f.Keeps k :=
  ⟨h'.index.trans h.index, h'.callbacks.trans h.callbacks, h'.pool.trans h.pool,
    h'.snapshots.trans h.snapshots, h'.ts.trans h.ts⟩

theorem Refers.subset
    {f : Firing} {others fewer : List VariableId}
    (h : f.Refers others)
    (hsub : fewer ⊆ others) :
    f.Refers fewer := by
  refine Captured.IsSound.subset h fun r hr => ?_
  rcases List.mem_append.1 hr with hold | hnew
  · exact List.mem_append_left _ hold
  · exact List.mem_append_right _ (hsub hnew)

/-- A context with the same table, of whose references the others were known before. -/
theorem Refers.update
    {f g : Firing} {others : List VariableId}
    (h : f.Refers others)
    (htable : g.context.capture.table = f.context.capture.table)
    (hrefs : g.context.references ⊆ f.context.references ++ others) :
    g.Refers others := by
  unfold Refers
  rw [htable]
  refine Captured.IsSound.subset h fun r hr => ?_
  rcases List.mem_append.1 hr with hold | hnew
  · exact hrefs hold
  · exact List.mem_append_right _ hnew

end Firing

/-! ### Sound steps -/

namespace Acting

variable {α β : Type}

/-- At this state the step keeps what all processing keeps, and the firings on record.
If the table knows what the step needs, it then knows its answer, too. -/
structure SoundAt (f : Firing) (needs : List VariableId) (m : Acting α)
    (gives : α → List VariableId) : Prop where
  keeps : f.Keeps (m.run.run f).2
  ledger : (m.run.run f).2.agent.ledger = f.agent.ledger
  refers : f.Refers needs → (m.run.run f).2.Refers (needs ++ (m.run.run f).1.elim [] gives)

/-- The step is sound at every state. -/
def Sound (needs : List VariableId) (m : Acting α) (gives : α → List VariableId) : Prop :=
  ∀ f, SoundAt f needs m gives

/-- An answer without references. -/
def nothing (_ : α) : List VariableId := []

/-- A panic in the first steps is one of all, with the state up to it. -/
theorem run_bind
    (m : Acting α) (k : α → Acting β) (f : Firing) :
    (m >>= k).run.run f =
      match m.run.run f with
      | (some a, g) => (k a).run.run g
      | (none, g) => (none, g) := by
  rw [OptionT.run_bind, Option.elimM, StateT.run_bind]
  rcases m.run.run f with ⟨_ | a, g⟩ <;> rfl

/-! ### Composition -/

section Composition

variable {f : Firing} {needs : List VariableId} {gives : α → List VariableId}

/-- What is given without a step is among what is there. -/
theorem sound_pure
    {a : α}
    (h : gives a ⊆ needs) :
    Sound needs (pure a : Acting α) gives :=
  fun f => ⟨f.keeps_refl, rfl, fun hf =>
    hf.subset (List.append_subset.2 ⟨List.Subset.refl needs, h⟩)⟩

theorem sound_failure : Sound needs (failure : Acting α) gives :=
  fun f => ⟨f.keeps_refl, rfl, fun hf =>
    hf.subset (List.append_subset.2 ⟨List.Subset.refl needs, List.nil_subset _⟩)⟩

/-- The references that the first steps give are there for the next ones. -/
theorem soundAt_bind
    {m : Acting α} {k : α → Acting β} {after : β → List VariableId}
    (hm : SoundAt f needs m gives)
    (hk : ∀ a, Sound (needs ++ gives a) (k a) after) :
    SoundAt f needs (m >>= k) after := by
  obtain ⟨hkeeps, hledger, hrefers⟩ := hm
  rcases hrun : m.run.run f with ⟨_ | a, g⟩ <;> rw [hrun] at hkeeps hledger hrefers
  · refine ⟨?_, ?_, fun hf => ?_⟩ <;> rw [run_bind, hrun]
    · exact hkeeps
    · exact hledger
    · exact hrefers hf
  · have hnext := hk a g
    refine ⟨?_, ?_, fun hf => ?_⟩ <;> rw [run_bind, hrun]
    · exact hkeeps.trans hnext.keeps
    · exact hnext.ledger.trans hledger
    · refine (hnext.refers (hrefers hf)).subset fun r hr => ?_
      rcases List.mem_append.1 hr with hold | hnew
      · exact List.mem_append_left _ (List.mem_append_left _ hold)
      · exact List.mem_append_right _ hnew

theorem sound_bind
    {m : Acting α} {k : α → Acting β} {after : β → List VariableId}
    (hm : Sound needs m gives)
    (hk : ∀ a, Sound (needs ++ gives a) (k a) after) :
    Sound needs (m >>= k) after :=
  fun f => soundAt_bind (hm f) hk

/-- The same where the first step has no answer to refer to. -/
theorem sound_bind_nothing
    {m : Acting α} {k : α → Acting β} {after : β → List VariableId}
    (hm : Sound needs m nothing)
    (hk : ∀ a, Sound needs (k a) after) :
    Sound needs (m >>= k) after := by
  refine sound_bind hm fun a => ?_
  rw [nothing, List.append_nil]
  exact hk a

theorem soundAt_get
    {k : Firing → Acting β} {after : β → List VariableId}
    (hk : SoundAt f needs (k f) after) :
    SoundAt f needs (get >>= k) after :=
  ⟨hk.keeps, hk.ledger, hk.refers⟩

/-- What is read of the state has no bearing on soundness. -/
theorem sound_get
    {k : Firing → Acting β} {after : β → List VariableId}
    (hk : ∀ f, Sound needs (k f) after) :
    Sound needs (get >>= k) after :=
  fun f => soundAt_get (hk f f)

theorem soundAt_set
    {g : Firing}
    (more : List VariableId)
    (hkeeps : f.Keeps g)
    (hledger : g.agent.ledger = f.agent.ledger)
    (hrefers : f.Refers needs → g.Refers (needs ++ more)) :
    SoundAt f needs (set g : Acting PUnit) fun _ => more :=
  ⟨hkeeps, hledger, hrefers⟩

/-- A change that leaves table, ledger and identity alone is sound. -/
theorem sound_modify
    {u : Firing → Firing}
    (hkeeps : ∀ f : Firing, f.Keeps (u f))
    (hledger : ∀ f : Firing, (u f).agent.ledger = f.agent.ledger)
    (htable : ∀ f : Firing, (u f).context.capture.table = f.context.capture.table)
    (hrefs : ∀ f : Firing, (u f).context.references ⊆ f.context.references ++ needs) :
    Sound needs (modify u : Acting PUnit) nothing := by
  intro f
  refine ⟨hkeeps f, hledger f, fun hf => ?_⟩
  have hupdated : (u f).Refers needs := hf.update (htable f) (hrefs f)
  exact hupdated.subset (List.append_subset.2 ⟨List.Subset.refl needs, List.nil_subset _⟩)

theorem sound_mapM
    {l : List α} {m : α → Acting β} {after : β → List VariableId}
    (hm : ∀ a, ∀ more, Sound more (m a) after) :
    Sound needs (l.mapM m) (List.flatMap after) := by
  induction l generalizing needs with
  | nil =>
      rw [List.mapM_nil]
      exact sound_pure (List.nil_subset _)
  | cons a rest ih =>
      rw [List.mapM_cons]
      refine sound_bind (hm a needs) fun b => sound_bind ih fun bs => sound_pure ?_
      rw [List.flatMap_cons]
      refine List.append_subset.2 ⟨?_, List.subset_append_right _ _⟩
      exact fun r hr => List.mem_append_left _ (List.mem_append_right _ hr)

end Composition

end Acting

/-! ### Walks and stacks -/

section Stack

variable {t : VariableTable} {roots : List VariableId}

/-- A walk over bindings enters all that it returns into the table. -/
theorem isSound_walkAll
    (ht : Captured.IsSound ⟨t, roots⟩)
    (h : Heap) (limits : WalkLimits) (bindings : List (String × Ref)) (budget : Budget) :
    Captured.IsSound ⟨(walkAll h limits bindings t budget).2.1,
      roots ++ (walkAll h limits bindings t budget).1⟩ :=
  Captured.isSound_after ht ⟨h, limits, .all bindings, budget⟩

theorem isSound_walkOne
    (ht : Captured.IsSound ⟨t, roots⟩)
    (h : Heap) (limits : WalkLimits) (name : String) (value : Ref) (budget : Budget) :
    Captured.IsSound ⟨(walkOne h limits name value t budget).2.1,
      roots ++ (walkOne h limits name value t budget).1.toList⟩ :=
  Captured.isSound_after ht ⟨h, limits, .one name value, budget⟩

theorem isSound_processFrame
    {s : CaptureState}
    (hs : Captured.IsSound ⟨s.table, roots⟩)
    (h : Heap) (config : CaptureConfig) (rules : InApp) (depth : Nat) (a : Activation) :
    Captured.IsSound ⟨(Stack.processFrame h config rules depth a s).2.table,
      roots ++ (Stack.processFrame h config rules depth a s).1.elim [] StackFrame.locals⟩ := by
  cases ha : a.locals with
  | none =>
      rw [Stack.processFrame_of_none ha]
      exact hs.subset (by simp)
  | some locals =>
      rcases hexpand : Stack.mayExpand config depth s.budget with ⟨_ | _, budget⟩
      · rw [Stack.processFrame_of_bare ha hexpand]
        exact hs.subset (by simp [Stack.record])
      · rw [Stack.processFrame_of_walked ha hexpand rfl]
        exact isSound_walkAll hs h config.walkLimits locals budget

/-- Frames that were recorded before a panic outwards are known, too; the stack is then
not kept. -/
theorem isSound_processAll
    {s : CaptureState}
    (hs : Captured.IsSound ⟨s.table, roots⟩)
    (h : Heap) (config : CaptureConfig) (rules : InApp) (depth : Nat) (stack : List Activation) :
    Captured.IsSound ⟨(Stack.processAll h config rules depth stack s).2.table,
      roots ++ ((Stack.processAll h config rules depth stack s).1.getD []).flatMap
        StackFrame.locals⟩ := by
  induction stack generalizing roots depth s with
  | nil => simpa [Stack.processAll] using hs
  | cons a rest ih =>
      have hframe := isSound_processFrame hs h config rules depth a
      rcases hfirst : Stack.processFrame h config rules depth a s with ⟨_ | frame, next⟩
      · rw [Stack.processAll_of_none (congrArg Prod.fst hfirst)]
        exact hframe.subset (by simp)
      · rw [hfirst] at hframe
        rw [Stack.processAll_of_some hfirst]
        have hrest := ih hframe (depth + 1)
        rcases hframes : (Stack.processAll h config rules (depth + 1) rest next).1 with _ | frames
        · rw [hframes] at hrest
          exact hrest.subset (by simp)
        · rw [hframes] at hrest
          exact hrest.subset (by simp)

end Stack

/-! ### Expressions -/

namespace Acting

section Expressions

variable {needs : List VariableId} (c : Collaborators)

/-- The evaluator may change values, but not what was captured of them. -/
theorem sound_evaluate
    (expression : String) :
    Sound needs (evaluate c expression) nothing := by
  intro f
  unfold evaluate
  refine soundAt_get ?_
  rcases c.evaluate expression f.context.bindings f.agent.heap with ⟨r, heap⟩ | e | _
  · refine soundAt_bind (soundAt_set [] ⟨rfl, rfl, rfl, rfl, rfl⟩ rfl fun hf => ?_) fun _ =>
      sound_pure (List.nil_subset _)
    rw [List.append_nil]
    exact hf
  · exact sound_pure (List.nil_subset _) f
  · exact sound_failure f

theorem sound_walkWatch
    (expression : String) (value : Ref) (source : WatchSource) :
    Sound needs (walkWatch expression value source) WatchResult.roots := by
  intro f
  unfold walkWatch
  refine soundAt_get ?_
  have hwalk : f.Refers needs → _ := fun hf => isSound_walkOne hf f.agent.heap
    f.context.config.walkLimits expression value f.context.capture.budget
  rcases hone : walkOne f.agent.heap f.context.config.walkLimits expression value
    f.context.capture.table f.context.capture.budget with ⟨id, table, budget⟩
  rw [hone] at hwalk
  dsimp only at hwalk ⊢
  rw [hone]
  refine soundAt_bind (soundAt_set id.toList ⟨rfl, rfl, rfl, rfl, rfl⟩ rfl fun hf => ?_)
    fun _ => ?_
  · have hlater := hwalk hf
    rw [List.append_assoc] at hlater
    exact hlater
  · cases id with
    | none => exact sound_pure (List.nil_subset _)
    | some id => exact sound_pure (List.subset_append_right _ _)

theorem sound_watch
    (expression : String) (source : WatchSource) :
    Sound needs (watch c expression source) WatchResult.roots := by
  refine sound_bind_nothing (sound_evaluate c expression) fun answer => ?_
  cases answer with
  | ok value => exact sound_walkWatch expression value source
  | error e => exact sound_pure (List.nil_subset _)

theorem sound_valueText
    (expression : String) :
    Sound needs (valueText c expression) nothing := by
  refine sound_bind_nothing (sound_evaluate c expression) fun answer => ?_
  cases answer with
  | ok value => exact sound_get fun f => sound_pure (List.nil_subset _)
  | error e => exact sound_pure (List.nil_subset _)

theorem sound_conditionMet
    (a : Action) :
    Sound needs (conditionMet c a) nothing := by
  unfold conditionMet
  split
  · exact sound_pure (List.nil_subset _)
  · next condition _ =>
      refine sound_bind_nothing (sound_evaluate c condition) fun answer => ?_
      cases answer with
      | ok value => exact sound_get fun f => sound_pure (List.nil_subset _)
      | error e => exact sound_pure (List.nil_subset _)

end Expressions

/-! ### Snapshots -/

section Snapshots

variable {needs : List VariableId} (c : Collaborators)

theorem sound_collectFrames :
    Sound needs (collectFrames c) (List.flatMap StackFrame.locals) := by
  intro f
  unfold collectFrames
  refine soundAt_get ?_
  dsimp only
  rcases hframes : f.context.frames with _ | frames
  · have hcollect : f.Refers needs → _ := fun hf => isSound_processAll hf f.agent.heap
      f.context.config c.inApp 0 (Stack.recorded f.context.config.stackType f.context.frame)
    rcases hstack : Stack.collect f.agent.heap f.context.config c.inApp f.context.frame
      f.context.capture with ⟨frames, capture⟩
    rw [show Stack.processAll f.agent.heap f.context.config c.inApp 0
      (Stack.recorded f.context.config.stackType f.context.frame) f.context.capture =
        (frames, capture) from hstack] at hcollect
    refine soundAt_bind (soundAt_set ((frames.getD []).flatMap StackFrame.locals)
      ⟨rfl, rfl, rfl, rfl, rfl⟩ rfl fun hf => (hcollect hf).subset fun r hr => ?_) fun _ => ?_
    · simp only [TriggerContext.references, hframes, List.mem_append, Option.getD_none,
        List.flatMap_nil] at hr ⊢
      tauto
    · cases frames with
      | none => exact sound_failure
      | some frames => exact sound_pure (List.subset_append_right _ _)
  · refine ⟨f.keeps_refl, rfl, fun hf => Captured.IsSound.subset hf fun r hr => ?_⟩
    -- The answer is among what the context refers to anyway.
    rcases List.mem_append.1 hr with hold | hnew
    · exact List.mem_append_left _ hold
    · rcases List.mem_append.1 hnew with hneeds | hframe
      · exact List.mem_append_right _ hneeds
      · refine List.mem_append_left _ (List.mem_append_left _ (List.mem_append_left _ ?_))
        rw [hframes]
        exact hframe

theorem sound_beginSnapshot
    (tp : Tracepoint) :
    Sound needs (beginSnapshot c tp) nothing := by
  intro f
  unfold beginSnapshot
  refine soundAt_get (soundAt_bind (soundAt_set [] ⟨rfl, rfl, rfl, rfl, rfl⟩ rfl fun hf => ?_)
    fun _ => sound_pure (List.nil_subset _))
  rw [List.append_nil]
  exact hf

theorem roots_withAttributes
    (x : TriggerContext) (tp : Tracepoint) (s : Snapshot) :
    (withAttributes x tp s).roots = s.roots := by
  have hfold : ∀ (attributes : List (String × String)) (s : Snapshot),
      (attributes.foldl (fun s a => s.setText a.1 a.2) s).roots = s.roots := by
    intro attributes
    induction attributes with
    | nil => exact fun _ => rfl
    | cons a rest ih => exact fun s => ih (s.setText a.1 a.2)
  simp only [withAttributes, hfold, Snapshot.roots_setText, Snapshot.roots_setAttribute]

/-- Results that refer to what is known may be left. -/
theorem sound_leave
    {r : Firing → ActionResult}
    (hr : ∀ f, (r f).roots ⊆ needs) :
    Sound needs (modify fun f => f.leave (r f)) nothing := by
  refine sound_modify (fun _ => ⟨rfl, rfl, rfl, rfl, rfl⟩) (fun _ => rfl) (fun _ => rfl)
    fun f v hv => ?_
  simp only [Firing.leave, TriggerContext.references, List.flatMap_append, List.flatMap_cons,
    List.flatMap_nil, List.append_nil, List.mem_append] at hv ⊢
  have := @hr f v
  tauto

/-- The references of a snapshot are in the table. -/
theorem sound_processSnapshot
    (tp : Tracepoint) :
    Sound needs (processSnapshot c tp) nothing := by
  refine sound_bind_nothing (sound_beginSnapshot c tp) fun snapshot => ?_
  refine sound_bind (sound_collectFrames c) fun frames => ?_
  refine sound_bind (sound_mapM fun expression _ => sound_watch c expression .watch)
    fun watches => sound_get fun f => ?_
  refine sound_bind_nothing (sound_leave fun _ => ?_) fun _ => sound_pure (List.nil_subset _)
  rw [ActionResult.roots, roots_withAttributes, Snapshot.roots]
  refine List.append_subset.2 ⟨fun r hr => ?_, List.subset_append_right _ _⟩
  exact List.mem_append_left _ (List.mem_append_right _ hr)

end Snapshots

/-! ### Messages -/

section Messages

variable {needs : List VariableId} (c : Collaborators)

theorem sound_attach
    {tracepoint : String} {w : WatchResult}
    (hw : w.roots ⊆ needs) :
    Sound needs (modify fun f => f.attach tracepoint w) nothing := by
  refine sound_modify (fun _ => ⟨rfl, rfl, rfl, rfl, rfl⟩) (fun _ => rfl) (fun _ => rfl)
    fun f v hv => ?_
  simp only [Firing.attach, TriggerContext.references, List.flatMap_append, List.flatMap_cons,
    List.flatMap_nil, List.append_nil, List.mem_append] at hv ⊢
  have := @hw v
  tauto

/-- A message attaches only what it has recorded. -/
theorem sound_segmentText
    (tp : Tracepoint) (segment : Segment) :
    Sound needs (segmentText c tp segment) nothing := by
  cases segment with
  | char ch => exact sound_pure (List.nil_subset _)
  | expression source =>
      refine sound_bind_nothing (sound_evaluate c source) fun answer => ?_
      cases answer with
      | ok value =>
          refine sound_get fun f => ?_
          dsimp only
          split
          · refine sound_bind (sound_walkWatch source value .log) fun w => ?_
            exact sound_bind_nothing (sound_attach (List.subset_append_right _ _)) fun _ =>
              sound_pure (List.nil_subset _)
          · exact sound_pure (List.nil_subset _)
      | error e =>
          dsimp only
          split
          · exact sound_bind_nothing (sound_attach (List.nil_subset _)) fun _ =>
              sound_pure (List.nil_subset _)
          · exact sound_pure (List.nil_subset _)

theorem sound_processLog
    (tp : Tracepoint) (template : String) :
    Sound needs (processLog c tp template) nothing := by
  have hsegments : Sound needs (formatLog c tp template) nothing := by
    refine sound_bind (sound_mapM fun segment _ => sound_segmentText c tp segment)
      fun _ => sound_pure (List.nil_subset _)
  refine sound_bind_nothing hsegments fun message => ?_
  exact sound_bind_nothing (sound_leave fun _ => List.nil_subset _) fun _ =>
    sound_pure (List.nil_subset _)

end Messages

/-! ### Metrics -/

section Metrics

variable {needs : List VariableId} (c : Collaborators)

theorem sound_report
    (d : Diagnostic) :
    Sound needs (modify fun f => f.report d) nothing :=
  sound_modify (fun _ => ⟨rfl, rfl, rfl, rfl, rfl⟩) (fun _ => rfl) (fun _ => rfl)
    fun _ => List.subset_append_left _ _

theorem sound_metricValue
    (tp : Tracepoint) (m : MetricDefinition) :
    Sound needs (metricValue c tp m) nothing := by
  unfold metricValue
  split
  · exact sound_pure (List.nil_subset _)
  · next expression _ =>
      refine sound_bind_nothing (sound_evaluate c expression) fun answer => ?_
      cases answer with
      | ok value =>
          refine sound_get fun f => ?_
          have hnumber : ∀ {more : List VariableId} (number : Option Float),
              Sound more (if number.isNone = true then do
                modify fun f => f.report .metricNotNumeric
                pure number else pure number) nothing := by
            intro more number
            split
            · exact sound_bind_nothing (sound_report _) fun _ => sound_pure (List.nil_subset _)
            · exact sound_pure (List.nil_subset _)
          dsimp only
          split
          · refine sound_bind (sound_walkWatch expression value .metric) fun w => ?_
            exact sound_bind_nothing (sound_attach (List.subset_append_right _ _)) fun _ =>
              hnumber _
          · exact hnumber _
      | error e =>
          refine sound_bind_nothing (sound_report _) fun _ => ?_
          dsimp only
          split
          · exact sound_bind_nothing (sound_attach (List.nil_subset _)) fun _ =>
              sound_pure (List.nil_subset _)
          · exact sound_pure (List.nil_subset _)

theorem sound_labels
    (m : MetricDefinition) :
    Sound needs (labels c m) nothing := by
  have hlabel : ∀ (l : LabelExpression) (more : List VariableId),
      Sound more (labelText c l) nothing := by
    intro l more
    unfold labelText
    split
    · exact sound_pure (List.nil_subset _)
    · exact sound_valueText c _
    · exact sound_pure (List.nil_subset _)
  have hpair : ∀ (l : LabelExpression) (more : List VariableId),
      Sound more (do return (l.key, ← labelText c l)) nothing :=
    fun l more => sound_bind_nothing (hlabel l more) fun _ => sound_pure (List.nil_subset _)
  exact sound_bind (sound_mapM hpair) fun _ => sound_pure (List.nil_subset _)

theorem sound_emit
    (t : MetricType) (sample : MetricSample) (processors : List (MetricProcessor × Nat)) :
    Sound needs (modify fun f => processors.foldl (fun f p => emitTo t sample p f) f) nothing := by
  have hemit : ∀ (p : MetricProcessor × Nat) (f : Firing),
      f.Keeps (emitTo t sample p f) ∧ (emitTo t sample p f).agent.ledger = f.agent.ledger ∧
        (emitTo t sample p f).context = f.context := by
    intro p f
    unfold emitTo
    dsimp only
    split
    · exact ⟨⟨rfl, rfl, rfl, rfl, rfl⟩, rfl, rfl⟩
    · exact ⟨⟨rfl, rfl, rfl, rfl, rfl⟩, rfl, rfl⟩
  have hfold : ∀ (processors : List (MetricProcessor × Nat)) (f : Firing),
      f.Keeps (processors.foldl (fun f p => emitTo t sample p f) f) ∧
        (processors.foldl (fun f p => emitTo t sample p f) f).agent.ledger = f.agent.ledger ∧
        (processors.foldl (fun f p => emitTo t sample p f) f).context = f.context := by
    intro processors
    induction processors with
    | nil => exact fun f => ⟨f.keeps_refl, rfl, rfl⟩
    | cons p rest ih =>
        intro f
        obtain ⟨hkeeps, hledger, hcontext⟩ := hemit p f
        obtain ⟨hrest, hrestLedger, hrestContext⟩ := ih (emitTo t sample p f)
        exact ⟨hkeeps.trans hrest, hrestLedger.trans hledger, hrestContext.trans hcontext⟩
  refine sound_modify (fun f => (hfold processors f).1) (fun f => (hfold processors f).2.1)
    (fun f => ?_) fun f => ?_
  · rw [(hfold processors f).2.2]
  · rw [(hfold processors f).2.2]
    exact List.subset_append_left _ _

theorem sound_processMetric
    (tp : Tracepoint) (m : MetricDefinition) :
    Sound needs (processMetric c tp m) nothing := by
  refine sound_bind_nothing (sound_metricValue c tp m) fun value => ?_
  cases value with
  | none => exact sound_pure (List.nil_subset _)
  | some value =>
      refine sound_bind_nothing (sound_labels c m) fun text => ?_
      refine sound_bind_nothing (sound_emit _ _ _) fun _ => ?_
      exact sound_bind_nothing (sound_leave fun _ => List.nil_subset _) fun _ =>
        sound_pure (List.nil_subset _)

end Metrics

/-! ### Spans -/

section Spans

variable {needs : List VariableId} (c : Collaborators)

theorem sound_openSpans
    (request : SpanRequest) (processors : List (SpanProcessor × Nat)) :
    Sound needs (openSpans request processors) nothing := by
  induction processors with
  | nil => exact sound_pure (List.nil_subset _)
  | cons p rest ih =>
      unfold openSpans
      split
      · exact ih
      · exact sound_failure
      · intro f
        refine soundAt_get (soundAt_bind (soundAt_set [] ⟨rfl, rfl, rfl, rfl, rfl⟩ rfl fun hf => ?_)
          fun _ => ?_)
        · rw [List.append_nil]
          exact hf
        · rw [List.append_nil]
          exact sound_bind_nothing ih fun _ => sound_pure (List.nil_subset _)

theorem sound_processSpan
    (tp : Tracepoint) (spanType : SpanType) (name : Option String) :
    Sound needs (processSpan c tp spanType name) nothing := by
  refine sound_get fun f => ?_
  refine sound_bind_nothing (sound_openSpans _ c.plugins.activeSpans) fun handles => ?_
  split
  · exact sound_pure (List.nil_subset _)
  · exact sound_bind_nothing (sound_leave fun _ => List.nil_subset _) fun _ =>
      sound_pure (List.nil_subset _)

end Spans

/-! ### All actions -/

/-- Whatever an action is for, it leaves only references that the table knows. -/
theorem sound_perform
    {needs : List VariableId}
    (c : Collaborators) (a : Action) :
    Sound needs (perform c a) nothing := by
  unfold perform
  cases a.config with
  | snapshot => exact sound_processSnapshot c a.tracepoint
  | log template => exact sound_processLog c a.tracepoint template
  | metric definition => exact sound_processMetric c a.tracepoint definition
  | span spanType name => exact sound_processSpan c a.tracepoint spanType name

theorem sound_processAction
    {needs : List VariableId}
    (c : Collaborators) (a : Action) :
    Sound needs (processAction c a) nothing := by
  have henter : ∀ (state : ContextState), Sound needs (modify fun f => f.enter state) nothing :=
    fun _ => sound_modify (fun _ => ⟨rfl, rfl, rfl, rfl, rfl⟩) (fun _ => rfl) (fun _ => rfl)
      fun _ => List.subset_append_left _ _
  refine sound_bind_nothing (henter _) fun _ => sound_bind_nothing (sound_conditionMet c a)
    fun holds => ?_
  split
  · exact sound_bind_nothing (henter _) fun _ => sound_perform c a
  · exact sound_pure (List.nil_subset _)

end Acting

/-! ### Firing -/

namespace Firing

variable (c : Collaborators)

/-- What an action does while it fires, up to the record of the firing. -/
theorem contain_processAction
    (a : Action) (f : Firing) :
    f.Keeps (f.contain (Acting.processAction c a)).2 ∧
      (f.contain (Acting.processAction c a)).2.agent.ledger = f.agent.ledger ∧
      (f.Refers [] → (f.contain (Acting.processAction c a)).2.Refers []) := by
  have hsound : Acting.SoundAt f [] (Acting.processAction c a) Acting.nothing :=
    Acting.sound_processAction c a f
  obtain ⟨hkeeps, hledger, hrefers⟩ := hsound
  unfold contain
  rcases hrun : (Acting.processAction c a).run.run f with ⟨_ | success, g⟩ <;>
    rw [hrun] at hkeeps hledger hrefers
  · exact ⟨hkeeps.trans ⟨rfl, rfl, rfl, rfl, rfl⟩, hledger, hrefers⟩
  · exact ⟨hkeeps, hledger, hrefers⟩

/-- An attempt to fire keeps the identity of the context, and what was handed over. -/
theorem keeps_fire
    (a : Action) (f : Firing) :
    f.Keeps (f.fire c a).2 := by
  have hkeeps := (contain_processAction c a f).1
  unfold fire
  split
  · exact f.keeps_refl
  · rcases hrun : f.contain (Acting.processAction c a) with ⟨_ | _, g⟩ <;> rw [hrun] at hkeeps
    · exact hkeeps
    · exact hkeeps.trans ⟨rfl, rfl, rfl, rfl, rfl⟩

/-- After an attempt to fire the table knows all references of the context. -/
theorem refers_fire
    (a : Action)
    {f : Firing}
    (hf : f.Refers []) :
    (f.fire c a).2.Refers [] := by
  have hrefers := (contain_processAction c a f).2.2 hf
  unfold fire
  split
  · exact hf
  · rcases hrun : f.contain (Acting.processAction c a) with ⟨_ | _, g⟩ <;> rw [hrun] at hrefers
    · exact hrefers
    · exact hrefers

theorem keeps_process
    (actions : List Action) (f : Firing) :
    f.Keeps (f.process c actions).2 := by
  induction actions generalizing f with
  | nil => exact f.keeps_refl
  | cons a rest ih => exact (keeps_fire c a f).trans (ih _)

/-- After processing the table knows all references of the context. -/
theorem refers_process
    (actions : List Action)
    {f : Firing}
    (hf : f.Refers []) :
    (f.process c actions).2.Refers [] := by
  induction actions generalizing f with
  | nil => exact hf
  | cons a rest ih => exact ih (refers_fire c a hf)

end Firing
end LiveProbe
