import LiveProbe.Proofs.Context.Processing
import LiveProbe.Proofs.Expr.Uniform
import LiveProbe.Proofs.Variable.Uniform

/-!
# Processing does not look at identities

Two contexts that differ in the identities of their values process an action alike.

**Specification.**  Contexts are alike (`Firing.Alike`) if their heaps are, and if they show
the same view.  An exact view leaves out identities only, and the stage of the context
(`Firing.visible`).  A rough one leaves out, too, whatever depends on the bounds of the
capture (`Firing.outward`): what is left are messages, metrics and spans.  Steps go in step
(`Acting.InStep`) if from alike contexts they come to alike ones, with related answers or
with a panic on both sides.

**Results.**
* `inStep_bind`, `inStep_mapM` and their companions: composed steps go in step.
* `inStep_processAction`: so does every action; in the rough view, every action that
  collects no snapshot.
-/

namespace LiveProbe

/-- The result is a message. -/
def ActionResult.isMessage (r : ActionResult) : Bool := r.message?.isSome

namespace Firing

/-- The context but for the identities of values and its stage. -/
def visible (f : Firing) : Firing where
  context := { f.context with capture := ⟨.empty, f.context.capture.budget⟩, state := .opened }
  agent := { f.agent with heap := .empty }

/-- What of a context is left if all that depends on the bounds of its capture is left out. -/
def outward (f : Firing) : Firing where
  context :=
    { f.context with
      config := .standard
      capture := ⟨.empty, .unlimited⟩
      frames := none
      results := f.context.results.filter ActionResult.isMessage
      attached := []
      state := .opened }
  agent :=
    { f.agent with
      heap := .empty
      ledger := .empty
      captures := 0
      journal := { f.agent.journal with diagnostics := #[] } }

/-- The view of a context, exact or rough. -/
def view (exact : Bool) (f : Firing) : Firing := if exact then f.visible else f.outward

theorem outward_leave
    (f : Firing) (r : ActionResult) :
    (f.leave r).outward = if r.isMessage then f.outward.leave r else f.outward := by
  unfold outward leave
  cases hr : r.isMessage <;> simp [List.filter_append, hr]

/-- Contexts with alike heaps and one view. What is bound, in the context and on its stack,
is paired with itself. -/
structure Alike (exact : Bool) (R : Ref → Ref → Prop) (f g : Firing) : Prop where
  heap : Heap.Alike R f.agent.heap g.agent.heap
  view : f.view exact = g.view exact
  table : exact = true → f.context.capture.table.Alike R g.context.capture.table
  bindings : Eval.Fixes R f.context.bindings
  stack : ∀ a ∈ f.context.frame.stack, Stack.Fixes R a

/-- The references of a context stay as they are. -/
structure Retains (f f' : Firing) : Prop where
  heap : f'.agent.heap = f.agent.heap
  table : f'.context.capture.table = f.context.capture.table
  bindings : f'.context.bindings = f.context.bindings
  frame : f'.context.frame = f.context.frame

namespace Alike

variable {exact : Bool} {R : Ref → Ref → Prop} {f g : Firing}

/-- Contexts with the references of alike ones are alike if their views are equal. -/
theorem update
    {f' g' : Firing}
    (h : f.Alike exact R g)
    (hf : f.Retains f')
    (hg : g.Retains g')
    (hview : f'.view exact = g'.view exact) :
    f'.Alike exact R g' where
  heap := by rw [hf.heap, hg.heap]; exact h.heap
  view := hview
  table := by rw [hf.table, hg.table]; exact h.table
  bindings := by rw [hf.bindings]; exact h.bindings
  stack := by rw [hf.frame]; exact h.stack

/-- What both views show is the same. -/
theorem field_eq
    {α : Type}
    (h : f.Alike exact R g)
    (field : Firing → α)
    (hvisible : ∀ f : Firing, field f.visible = field f)
    (houtward : ∀ f : Firing, field f.outward = field f) :
    field f = field g := by
  have hview := congrArg field h.view
  cases exact with
  | true => exact (hvisible f).symm.trans (hview.trans (hvisible g))
  | false => exact (houtward f).symm.trans (hview.trans (houtward g))

/-- What the exact view shows is the same. -/
theorem visible_eq
    {α : Type}
    (h : f.Alike true R g)
    (field : Firing → α)
    (hvisible : ∀ f : Firing, field f.visible = field f) :
    field f = field g :=
  (hvisible f).symm.trans ((congrArg field h.view).trans (hvisible g))

theorem id_eq
    (h : f.Alike exact R g) :
    f.context.id = g.context.id :=
  h.field_eq (·.context.id) (fun _ => rfl) (fun _ => rfl)

theorem ts_eq
    (h : f.Alike exact R g) :
    f.context.ts = g.context.ts :=
  h.field_eq (·.context.ts) (fun _ => rfl) (fun _ => rfl)

theorem frame_eq
    (h : f.Alike exact R g) :
    f.context.frame = g.context.frame :=
  h.field_eq (·.context.frame) (fun _ => rfl) (fun _ => rfl)

theorem bindings_eq
    (h : f.Alike exact R g) :
    f.context.bindings = g.context.bindings :=
  h.field_eq (·.context.bindings) (fun _ => rfl) (fun _ => rfl)

theorem config_eq
    (h : f.Alike true R g) :
    f.context.config = g.context.config :=
  h.visible_eq (·.context.config) fun _ => rfl

theorem frames_eq
    (h : f.Alike true R g) :
    f.context.frames = g.context.frames :=
  h.visible_eq (·.context.frames) fun _ => rfl

theorem budget_eq
    (h : f.Alike true R g) :
    f.context.capture.budget = g.context.capture.budget :=
  h.visible_eq (·.context.capture.budget) fun _ => rfl

theorem enter
    (h : f.Alike exact R g)
    (state state' : ContextState) :
    (f.enter state).Alike exact R (g.enter state') := by
  refine h.update ⟨rfl, rfl, rfl, rfl⟩ ⟨rfl, rfl, rfl, rfl⟩ ?_
  cases exact with
  | true => exact h.view
  | false => exact h.view

theorem leave
    (h : f.Alike exact R g)
    (r : ActionResult) :
    (f.leave r).Alike exact R (g.leave r) := by
  refine h.update ⟨rfl, rfl, rfl, rfl⟩ ⟨rfl, rfl, rfl, rfl⟩ ?_
  cases exact with
  | true => exact congrArg (Firing.leave · r) h.view
  | false =>
      have hview : f.outward = g.outward := h.view
      change (f.leave r).outward = (g.leave r).outward
      rw [outward_leave, outward_leave, hview]

/-- Alike states may attach watches, the same ones if all is compared. -/
theorem attach
    {w w' : WatchResult}
    (h : f.Alike exact R g)
    (tracepoint : String)
    (hw : exact = true → w = w') :
    (f.attach tracepoint w).Alike exact R (g.attach tracepoint w') := by
  refine h.update ⟨rfl, rfl, rfl, rfl⟩ ⟨rfl, rfl, rfl, rfl⟩ ?_
  cases exact with
  | true =>
      rw [hw rfl]
      exact congrArg (Firing.attach · tracepoint w') h.view
  | false => exact h.view

theorem report
    (h : f.Alike exact R g)
    (d : Diagnostic) :
    (f.report d).Alike exact R (g.report d) := by
  refine h.update ⟨rfl, rfl, rfl, rfl⟩ ⟨rfl, rfl, rfl, rfl⟩ ?_
  cases exact with
  | true => exact congrArg (Firing.report · d) h.view
  | false => exact h.view

theorem emitTo
    (h : f.Alike exact R g)
    (t : MetricType) (sample : MetricSample) (p : MetricProcessor × Nat) :
    (Acting.emitTo t sample p f).Alike exact R (Acting.emitTo t sample p g) := by
  have hemitted : Firing.Alike exact R
      { f with agent := { f.agent with journal := f.agent.journal.emit ⟨p.2, t, sample⟩ } }
      { g with agent := { g.agent with journal := g.agent.journal.emit ⟨p.2, t, sample⟩ } } := by
    refine h.update ⟨rfl, rfl, rfl, rfl⟩ ⟨rfl, rfl, rfl, rfl⟩ ?_
    have hview := congrArg
      (fun f : Firing =>
        { f with agent := { f.agent with journal := f.agent.journal.emit ⟨p.2, t, sample⟩ } })
      h.view
    cases exact with
    | true => exact hview
    | false => exact hview
  unfold Acting.emitTo
  dsimp only
  split
  · exact hemitted.report .metricProcessorPanicked
  · exact hemitted

theorem emitAll
    (h : f.Alike exact R g)
    (t : MetricType) (sample : MetricSample) (processors : List (MetricProcessor × Nat)) :
    (processors.foldl (fun f p => Acting.emitTo t sample p f) f).Alike exact R
      (processors.foldl (fun f p => Acting.emitTo t sample p f) g) := by
  induction processors generalizing f g with
  | nil => exact h
  | cons p rest ih => exact ih (h.emitTo t sample p)

theorem openSpan
    (h : f.Alike exact R g)
    (processor : Nat) (request : SpanRequest) :
    Firing.Alike exact R { f with agent := (f.agent.openSpan processor request).2 }
      { g with agent := (g.agent.openSpan processor request).2 } := by
  refine h.update ⟨rfl, rfl, rfl, rfl⟩ ⟨rfl, rfl, rfl, rfl⟩ ?_
  have hview := congrArg
    (fun f : Firing => { f with agent := (f.agent.openSpan processor request).2 }) h.view
  cases exact with
  | true => exact hview
  | false => exact hview

/-- The heaps may become alike in more pairs. -/
theorem grow
    {S : Ref → Ref → Prop} {h' g' : Heap}
    (h : f.Alike exact R g)
    (hRS : ∀ x y, R x y → S x y) (ha : Heap.Alike S h' g') :
    Firing.Alike exact S { f with agent := { f.agent with heap := h' } }
      { g with agent := { g.agent with heap := g' } } where
  heap := ha
  view := by
    cases exact with
    | true => exact h.view
    | false => exact h.view
  table hexact := (h.table hexact).grow hRS ha
  bindings := h.bindings.mono hRS
  stack a ha locals hlocals p hp := hRS _ _ (h.stack a ha locals hlocals p hp)

/-- A capture and its stack come to the same records. -/
theorem capture
    {capture capture' : CaptureState} {frames frames' : Option (List StackFrame)}
    (h : f.Alike true R g)
    (hcapture : capture.Alike R capture')
    (hframes : frames = frames') :
    Firing.Alike true R
      { f with context := { f.context with frames := frames, capture := capture } }
      { g with context := { g.context with frames := frames', capture := capture' } } where
  heap := h.heap
  view := by
    have hview := congrArg
      (fun f : Firing =>
        { f with
          context := { f.context with frames := frames, capture := ⟨.empty, capture.budget⟩ } })
      h.view
    refine Eq.trans hview ?_
    rw [hcapture.budget, hframes]
    rfl
  table _ := hcapture.table
  bindings := h.bindings
  stack := h.stack

/-- In the rough view both sides may change in all that does not show. -/
theorem rough
    {f' g' : Firing}
    (h : f.Alike false R g)
    (hf : f'.outward = f.outward ∧ f'.agent.heap = f.agent.heap)
    (hg : g'.outward = g.outward ∧ g'.agent.heap = g.agent.heap) :
    f'.Alike false R g' where
  heap := by rw [hf.2, hg.2]; exact h.heap
  view := hf.1.trans (h.view.trans hg.1.symm)
  table hexact := by cases hexact
  bindings := by
    have hbindings : f'.context.bindings = f.context.bindings :=
      congrArg (·.context.bindings) hf.1
    rw [hbindings]
    exact h.bindings
  stack := by
    have hframe : f'.context.frame = f.context.frame := congrArg (·.context.frame) hf.1
    rw [hframe]
    exact h.stack

end Alike
end Firing

namespace Acting

variable {exact : Bool} {R : Ref → Ref → Prop} {α β γ δ : Type}

/-- From alike contexts, steps come to alike ones, with related answers or with a panic on
both sides. -/
def InStep (exact : Bool) (R : Ref → Ref → Prop) (T : OnPairs α β) (m : Acting α)
    (m' : Acting β) : Prop :=
  ∀ f g, f.Alike exact R g →
    ∃ S, (∀ x y, R x y → S x y) ∧
      Option.Rel (T S) (m.run.run f).1 (m'.run.run g).1 ∧
      (m.run.run f).2.Alike exact S (m'.run.run g).2

/-- The same answer. -/
def Equal : OnPairs α α := fun _ => Eq

/-! ### Composition -/

section Composition

variable {T : OnPairs α β} {U : OnPairs γ δ}

theorem inStep_pure
    {a : α} {b : β}
    (h : T R a b) :
    InStep exact R T (pure a) (pure b) :=
  fun _ _ hfg => ⟨R, fun _ _ hxy => hxy, .some h, hfg⟩

theorem inStep_failure :
    InStep exact R T (failure : Acting α) (failure : Acting β) :=
  fun _ _ hfg => ⟨R, fun _ _ hxy => hxy, .none, hfg⟩

/-- Steps may be composed, with the pairs that the first ones add. -/
theorem inStep_bind
    {m : Acting α} {m' : Acting β} {k : α → Acting γ} {k' : β → Acting δ}
    (h : InStep exact R T m m')
    (hk : ∀ S, (∀ x y, R x y → S x y) → ∀ a b, T S a b → InStep exact S U (k a) (k' b)) :
    InStep exact R U (m >>= k) (m' >>= k') := by
  intro f g hfg
  obtain ⟨S, hRS, hanswer, hafter⟩ := h f g hfg
  rw [run_bind, run_bind]
  generalize m.run.run f = p at hanswer hafter ⊢
  generalize m'.run.run g = p' at hanswer hafter ⊢
  obtain ⟨_ | a, f'⟩ := p <;> obtain ⟨_ | b, g'⟩ := p' <;> cases hanswer
  · exact ⟨S, hRS, .none, hafter⟩
  · next hab =>
      obtain ⟨S', hSS, hanswer', hafter'⟩ := hk S hRS a b hab f' g' hafter
      exact ⟨S', fun x y hxy => hSS x y (hRS x y hxy), hanswer', hafter'⟩

theorem inStep_imp
    {T' : OnPairs α β} {m : Acting α} {m' : Acting β}
    (h : InStep exact R T m m')
    (hT : ∀ S a b, T S a b → T' S a b) :
    InStep exact R T' m m' := by
  intro f g hfg
  obtain ⟨S, hRS, hanswer, hafter⟩ := h f g hfg
  refine ⟨S, hRS, ?_, hafter⟩
  generalize (m.run.run f).1 = a? at hanswer ⊢
  generalize (m'.run.run g).1 = b? at hanswer ⊢
  cases hanswer with
  | some hab => exact .some (hT S _ _ hab)
  | none => exact .none

theorem inStep_get
    {k : Firing → Acting γ} {k' : Firing → Acting δ}
    (hk : ∀ f g, f.Alike exact R g → InStep exact R U (k f) (k' g)) :
    InStep exact R U (get >>= k) (get >>= k') :=
  fun f g hfg => hk f g hfg f g hfg

theorem inStep_set
    {S : Ref → Ref → Prop} {f g : Firing} {k : PUnit → Acting γ} {k' : PUnit → Acting δ}
    (hRS : ∀ x y, R x y → S x y)
    (hfg : f.Alike exact S g)
    (hk : InStep exact S U (k ⟨⟩) (k' ⟨⟩)) :
    InStep exact R U (set f >>= k) (set g >>= k') := by
  intro _ _ _
  obtain ⟨S', hSS, hafter⟩ := hk f g hfg
  exact ⟨S', fun x y hxy => hSS x y (hRS x y hxy), hafter⟩

theorem inStep_modify
    {u u' : Firing → Firing} {k : PUnit → Acting γ} {k' : PUnit → Acting δ}
    (hu : ∀ f g, f.Alike exact R g → (u f).Alike exact R (u' g))
    (hk : InStep exact R U (k ⟨⟩) (k' ⟨⟩)) :
    InStep exact R U (modify u >>= k) (modify u' >>= k') :=
  fun f g hfg => hk (u f) (u' g) (hu f g hfg)

theorem inStep_mapM
    {l : List α} {m : α → Acting γ}
    (hm : ∀ a R, InStep exact R Equal (m a) (m a)) :
    InStep exact R Equal (l.mapM m) (l.mapM m) := by
  induction l generalizing R with
  | nil =>
      rw [List.mapM_nil]
      exact inStep_pure rfl
  | cons a rest ih =>
      rw [List.mapM_cons]
      refine inStep_bind (hm a R) fun S _ b _ hb => ?_
      subst hb
      refine inStep_bind ih fun S' _ bs _ hbs => ?_
      subst hbs
      exact inStep_pure rfl

end Composition

/-! ### Expressions -/

section Steps

variable {c : Collaborators} (hc : IsUniform c.evaluate)

include hc

/-- An expression has values or faults on both sides. -/
theorem inStep_evaluate
    (expression : String) :
    InStep exact R (fun S => Concur S) (evaluate c expression) (evaluate c expression) := by
  refine inStep_get fun f g hfg => ?_
  have halike := hc expression hfg.heap hfg.bindings
  rw [← hfg.bindings_eq]
  generalize c.evaluate expression f.context.bindings f.agent.heap = answer at halike ⊢
  generalize c.evaluate expression f.context.bindings g.agent.heap = answer' at halike ⊢
  cases halike with
  | value hgrown hrr =>
      exact inStep_set hgrown.pairs (hfg.grow hgrown.pairs hgrown.alike) (inStep_pure (.ok hrr))
  | fault e => exact inStep_pure (.error e)
  | panic => exact inStep_failure

omit hc in
theorem inStep_walkWatch
    {value value' : Ref}
    (expression : String) (source : WatchSource)
    (hvalue : R value value') :
    InStep exact R (fun _ w w' => exact = true → w = w')
      (walkWatch expression value source) (walkWatch expression value' source) := by
  refine inStep_get fun f g hfg => ?_
  dsimp only
  cases exact with
  | true =>
      have hconfig : f.context.config = g.context.config := hfg.config_eq
      have hbudget : f.context.capture.budget = g.context.capture.budget := hfg.budget_eq
      have hwalked : WalkedAlike R
          (walkOne f.agent.heap f.context.config.walkLimits expression value
            f.context.capture.table f.context.capture.budget)
          (walkOne g.agent.heap g.context.config.walkLimits expression value'
            g.context.capture.table g.context.capture.budget) := by
        rw [← hconfig, ← hbudget]
        exact walkOne_alike hfg.heap _ expression hvalue (hfg.table rfl) _
      generalize walkOne f.agent.heap _ _ _ _ _ = p at hwalked ⊢
      generalize walkOne g.agent.heap _ _ _ _ _ = p' at hwalked ⊢
      obtain ⟨id, table, budget⟩ := p
      obtain ⟨id', table', budget'⟩ := p'
      obtain ⟨hid, htable, hbudget⟩ := hwalked
      dsimp only at hid
      subst hid
      refine inStep_set (fun _ _ hxy => hxy) (hfg.capture ⟨htable, hbudget⟩ hfg.frames_eq) ?_
      cases id with
      | some id => exact inStep_pure fun _ => rfl
      | none => exact inStep_pure fun _ => rfl
  | false =>
      generalize walkOne f.agent.heap _ _ _ _ _ = p
      generalize walkOne g.agent.heap _ _ _ _ _ = p'
      obtain ⟨id, table, budget⟩ := p
      obtain ⟨id', table', budget'⟩ := p'
      refine inStep_set (fun _ _ hxy => hxy) (hfg.rough ⟨rfl, rfl⟩ ⟨rfl, rfl⟩) ?_
      cases id <;> cases id' <;> exact inStep_pure fun hexact => by cases hexact

theorem inStep_watch
    (expression : String) (source : WatchSource) :
    InStep true R Equal (watch c expression source) (watch c expression source) := by
  refine inStep_bind (inStep_evaluate hc expression) fun S _ answer answer' hanswer => ?_
  cases hanswer with
  | ok hvalue =>
      exact inStep_imp (inStep_walkWatch expression source hvalue) fun _ _ _ hw => hw rfl
  | error e => exact inStep_pure rfl

theorem inStep_valueText
    (expression : String) :
    InStep exact R Equal (valueText c expression) (valueText c expression) := by
  refine inStep_bind (inStep_evaluate hc expression) fun S _ answer answer' hanswer => ?_
  cases hanswer with
  | ok hvalue => exact inStep_get fun f g hfg => inStep_pure (hfg.heap.display_eq hvalue)
  | error e => exact inStep_pure rfl

theorem inStep_conditionMet
    (a : Action) :
    InStep exact R Equal (conditionMet c a) (conditionMet c a) := by
  unfold conditionMet
  cases a.condition with
  | none => exact inStep_pure rfl
  | some condition =>
      refine inStep_bind (inStep_evaluate hc condition) fun S _ answer answer' hanswer => ?_
      cases hanswer with
      | ok hvalue =>
          exact inStep_get fun f g hfg => inStep_pure (hfg.heap.read hvalue).isTruthy_eq
      | error e => exact inStep_pure rfl

/-! ### Snapshots -/

omit hc in
theorem inStep_collectFrames :
    InStep true R Equal (collectFrames c) (collectFrames c) := by
  refine inStep_get fun f g hfg => ?_
  dsimp only
  rw [← hfg.frames_eq]
  cases f.context.frames with
  | some frames => exact inStep_pure rfl
  | none =>
      have hconfig : f.context.config = g.context.config := hfg.config_eq
      have hframe : f.context.frame = g.context.frame := hfg.frame_eq
      have hcollected := Stack.collect_alike hfg.heap f.context.config c.inApp hfg.stack
        ⟨hfg.table rfl, hfg.budget_eq⟩
      have hsame : Stack.collect g.agent.heap f.context.config c.inApp f.context.frame
            g.context.capture =
          Stack.collect g.agent.heap g.context.config c.inApp g.context.frame
            g.context.capture := by
        rw [hconfig, hframe]
      rw [hsame] at hcollected
      dsimp only
      generalize Stack.collect f.agent.heap _ _ _ _ = p at hcollected ⊢
      generalize Stack.collect g.agent.heap _ _ _ _ = p' at hcollected ⊢
      obtain ⟨frames, capture⟩ := p
      obtain ⟨frames', capture'⟩ := p'
      obtain ⟨hframes, hcapture⟩ := hcollected
      dsimp only at hframes hcapture
      subst hframes
      refine inStep_set (fun _ _ hxy => hxy) (hfg.capture hcapture rfl) ?_
      cases frames with
      | some frames => exact inStep_pure rfl
      | none => exact inStep_failure

omit hc in
theorem inStep_beginSnapshot
    (tp : Tracepoint) :
    InStep true R Equal (beginSnapshot c tp) (beginSnapshot c tp) := by
  refine inStep_get fun f g hfg => ?_
  have hcaptures : f.agent.captures = g.agent.captures :=
    hfg.visible_eq (·.agent.captures) fun _ => rfl
  rw [hcaptures, hfg.ts_eq]
  refine inStep_set (fun _ _ hxy => hxy)
    (hfg.update ⟨rfl, rfl, rfl, rfl⟩ ⟨rfl, rfl, rfl, rfl⟩ ?_) (inStep_pure rfl)
  exact congrArg
    (fun f : Firing => { f with agent := { f.agent with captures := g.agent.captures + 1 } })
    hfg.view

omit hc in
theorem withAttributes_eq
    {x y : TriggerContext} {tp : Tracepoint} {s : Snapshot}
    (hframe : x.frame = y.frame)
    (hid : x.id = y.id) :
    withAttributes x tp s = withAttributes y tp s := by
  simp only [withAttributes, hframe, hid]

/-- Snapshots are equal on both sides where all is compared. -/
theorem inStep_processSnapshot
    (tp : Tracepoint) :
    InStep true R Equal (processSnapshot c tp) (processSnapshot c tp) := by
  refine inStep_bind (inStep_beginSnapshot tp) fun _ _ snapshot _ hsnapshot => ?_
  subst hsnapshot
  refine inStep_bind inStep_collectFrames fun _ _ frames _ hframes => ?_
  subst hframes
  refine inStep_bind (inStep_mapM fun e _ => inStep_watch hc e .watch) fun _ _ watches _ hw => ?_
  subst hw
  refine inStep_get fun f g hfg => ?_
  dsimp only
  rw [withAttributes_eq hfg.frame_eq hfg.id_eq]
  exact inStep_modify (fun f g hfg => hfg.leave _) (inStep_pure rfl)

/-! ### Messages -/

/-- Texts are equal on both sides, whatever was captured. -/
theorem inStep_segmentText
    (tp : Tracepoint) (segment : Segment) :
    InStep exact R Equal (segmentText c tp segment) (segmentText c tp segment) := by
  cases segment with
  | char ch => exact inStep_pure rfl
  | expression source =>
      refine inStep_bind (inStep_evaluate hc source) fun S _ answer answer' hanswer => ?_
      cases hanswer with
      | ok hvalue =>
          refine inStep_get fun f g hfg => ?_
          dsimp only
          rw [hfg.heap.display_eq hvalue]
          split
          · refine inStep_bind (inStep_walkWatch source .log hvalue) fun S' _ w w' hw => ?_
            exact inStep_modify (fun f g hfg => hfg.attach tp.id hw) (inStep_pure rfl)
          · exact inStep_pure rfl
      | error e =>
          dsimp only
          split
          · exact inStep_modify (fun f g hfg => hfg.attach tp.id fun _ => rfl) (inStep_pure rfl)
          · exact inStep_pure rfl

theorem inStep_formatLog
    (tp : Tracepoint) (template : String) :
    InStep exact R Equal (formatLog c tp template) (formatLog c tp template) := by
  refine inStep_bind (inStep_mapM fun segment _ => inStep_segmentText hc tp segment)
    fun _ _ texts _ htexts => ?_
  subst htexts
  exact inStep_pure rfl

theorem inStep_processLog
    (tp : Tracepoint) (template : String) :
    InStep exact R Equal (processLog c tp template) (processLog c tp template) := by
  refine inStep_bind (inStep_formatLog hc tp template) fun _ _ message _ hmessage => ?_
  subst hmessage
  exact inStep_modify (fun f g hfg => hfg.leave _) (inStep_pure rfl)

/-! ### Metrics -/

omit hc in
theorem metricNumber?_eq
    {v w : Value}
    (h : v.Alike R w) :
    v.metricNumber? = w.metricNumber? := by
  cases h <;> rfl

/-- Numbers are equal on both sides, whatever was captured. -/
theorem inStep_metricValue
    (tp : Tracepoint) (m : MetricDefinition) :
    InStep exact R Equal (metricValue c tp m) (metricValue c tp m) := by
  have hreported : ∀ S (number : Option Float),
      InStep exact S Equal
        (do if number.isNone then modify (·.report .metricNotNumeric)
            return number : Acting (Option Float))
        (do if number.isNone then modify (·.report .metricNotNumeric)
            return number) := by
    intro S number
    cases number with
    | none => exact inStep_modify (fun f g hfg => hfg.report _) (inStep_pure rfl)
    | some x => exact inStep_pure rfl
  unfold metricValue
  cases m.expression with
  | none => exact inStep_pure rfl
  | some expression =>
      refine inStep_bind (inStep_evaluate hc expression) fun S _ answer answer' hanswer => ?_
      cases hanswer with
      | ok hvalue =>
          refine inStep_get fun f g hfg => ?_
          dsimp only
          rw [metricNumber?_eq (hfg.heap.read hvalue)]
          split
          · refine inStep_bind (inStep_walkWatch expression .metric hvalue) fun S' _ w w' hw => ?_
            exact inStep_modify (fun f g hfg => hfg.attach tp.id hw) (hreported _ _)
          · exact hreported _ _
      | error e =>
          refine inStep_modify (fun f g hfg => hfg.report _) ?_
          split
          · exact inStep_modify (fun f g hfg => hfg.attach tp.id fun _ => rfl) (inStep_pure rfl)
          · exact inStep_pure rfl

theorem inStep_labelText
    (l : LabelExpression) :
    InStep exact R Equal (labelText c l) (labelText c l) := by
  unfold labelText
  split
  · exact inStep_pure rfl
  · exact inStep_valueText hc _
  · exact inStep_pure rfl

theorem inStep_labels
    (m : MetricDefinition) :
    InStep exact R Equal (labels c m) (labels c m) := by
  have hlabel : ∀ (l : LabelExpression) R,
      InStep exact R Equal (do return (l.key, ← labelText c l))
        (do return (l.key, ← labelText c l)) := by
    intro l R
    refine inStep_bind (inStep_labelText hc l) fun _ _ text _ htext => ?_
    subst htext
    exact inStep_pure rfl
  refine inStep_bind (inStep_mapM hlabel) fun _ _ pairs _ hpairs => ?_
  subst hpairs
  exact inStep_pure rfl

theorem inStep_processMetric
    (tp : Tracepoint) (m : MetricDefinition) :
    InStep exact R Equal (processMetric c tp m) (processMetric c tp m) := by
  refine inStep_bind (inStep_metricValue hc tp m) fun _ _ value _ hvalue => ?_
  subst hvalue
  cases value with
  | none => exact inStep_pure rfl
  | some value =>
      refine inStep_bind (inStep_labels hc m) fun _ _ text _ htext => ?_
      subst htext
      refine inStep_modify (fun f g hfg => hfg.emitAll _ _ _) ?_
      exact inStep_modify (fun f g hfg => hfg.leave _) (inStep_pure rfl)

/-! ### Spans -/

omit hc in
theorem inStep_openSpans
    (request : SpanRequest) (processors : List (SpanProcessor × Nat)) :
    InStep exact R Equal (openSpans request processors) (openSpans request processors) := by
  induction processors generalizing R with
  | nil =>
      exact inStep_pure rfl
  | cons p rest ih =>
      unfold openSpans
      cases p.1.answer request with
      | declined => exact ih
      | panicked => exact inStep_failure
      | opened =>
          refine inStep_get fun f g hfg => ?_
          have hspans : f.agent.spans = g.agent.spans :=
            hfg.field_eq (·.agent.spans) (fun _ => rfl) (fun _ => rfl)
          have hopened := hfg.openSpan p.2 request
          simp only [AgentState.openSpan, hspans] at hopened ⊢
          refine inStep_set (fun _ _ hxy => hxy) hopened ?_
          refine inStep_bind ih fun _ _ handles _ hhandles => ?_
          subst hhandles
          exact inStep_pure rfl

omit hc in
theorem inStep_processSpan
    (tp : Tracepoint) (spanType : SpanType) (name : Option String) :
    InStep exact R Equal (processSpan c tp spanType name) (processSpan c tp spanType name) := by
  refine inStep_get fun f g hfg => ?_
  have hevent : f.context.event = g.context.event :=
    hfg.field_eq (·.context.event) (fun _ => rfl) (fun _ => rfl)
  have hclose : closeOn f.context spanType = closeOn g.context spanType := by
    simp only [closeOn, hevent, hfg.frame_eq]
  dsimp only
  rw [hfg.frame_eq, hfg.id_eq, hclose]
  refine inStep_bind (inStep_openSpans _ _) fun _ _ handles _ hhandles => ?_
  subst hhandles
  split
  · exact inStep_pure rfl
  · exact inStep_modify (fun f g hfg => hfg.leave _) (inStep_pure rfl)

/-! ### All actions -/

/-- Actions have the same success on both sides; snapshots have where all is compared. -/
theorem inStep_perform
    {a : Action}
    (ha : exact = true ∨ a.config ≠ .snapshot) :
    InStep exact R Equal (perform c a) (perform c a) := by
  unfold perform
  cases hconfig : a.config with
  | snapshot =>
      obtain rfl := ha.resolve_right fun h => h hconfig
      exact inStep_processSnapshot hc a.tracepoint
  | log template => exact inStep_processLog hc a.tracepoint template
  | metric definition => exact inStep_processMetric hc a.tracepoint definition
  | span spanType name => exact inStep_processSpan a.tracepoint spanType name

theorem inStep_processAction
    {a : Action}
    (ha : exact = true ∨ a.config ≠ .snapshot) :
    InStep exact R Equal (processAction c a) (processAction c a) := by
  refine inStep_modify (fun f g hfg => hfg.enter _ _) ?_
  refine inStep_bind (inStep_conditionMet hc a) fun S _ met _ hmet => ?_
  subst hmet
  split
  · exact inStep_modify (fun f g hfg => hfg.enter _ _) (inStep_perform hc ha)
  · exact inStep_pure rfl

end Steps

end Acting
end LiveProbe
