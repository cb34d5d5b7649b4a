import LiveProbe.Proofs.Context.Results
import LiveProbe.Proofs.Context.Uniform

/-!
# Idle actions

Actions that do not fire, as their limits refuse them or their condition is not met, and
the processing of others beside them.

**Trace.**  Processing takes the actions in turn (`Firing.turns`).  An action is idle at its
turn if a limit stands against it or its condition does not hold (`Firing.isIdle`).

**Specification.**  A step is *aside* (`Acting.Aside`) if the context stays alike to what it
was alike to before, whatever that is.

**Results.**
* `aside_conditionMet`: a condition is evaluated aside.
* `Alike.idle`: an idle action stays aside.
* `Alike.process_filter`: processing with idle actions and without them comes to alike
  contexts, by induction on the actions.
-/

namespace LiveProbe

namespace Firing.Alike

variable {exact : Bool} {R : Ref → Ref → Prop} {f g f' : Firing}

theorem stage_left
    (h : f.Alike exact R g)
    (state : ContextState) :
    (f.enter state).Alike exact R g := by
  refine h.update ⟨rfl, rfl, rfl, rfl⟩ ⟨rfl, rfl, rfl, rfl⟩ ?_
  cases exact with
  | true => exact h.view
  | false => exact h.view

/-- One side may leave a result on its own, if it is not a message. -/
theorem leave_left
    {r : ActionResult}
    (h : f.Alike false R g)
    (hr : r.isMessage = false) :
    (f.leave r).Alike false R g := by
  refine h.rough ⟨?_, rfl⟩ ⟨rfl, rfl⟩
  rw [outward_leave, hr]
  rfl

/-- The sides may be exchanged, with the pairs of identities. -/
theorem symm
    (h : f.Alike false R g) :
    g.Alike false (fun y x => R x y) f where
  heap := h.heap.symm
  view := h.view.symm
  table hexact := by cases hexact
  bindings := h.bindings_eq ▸ h.bindings
  stack := h.frame_eq ▸ h.stack

end Firing.Alike

namespace Acting

/-! ### Steps aside -/

/-- The context stays alike to all that it was alike to. -/
def Aside (exact : Bool) {α : Type} (m : Acting α) : Prop :=
  ∀ {R : Ref → Ref → Prop} {f g : Firing}, f.Alike exact R g → (m.run.run f).2.Alike exact R g

variable {exact : Bool} {α β : Type}

theorem aside_pure
    (a : α) :
    Aside exact (pure a : Acting α) :=
  fun h => h

theorem aside_bind
    {m : Acting α} {k : α → Acting β}
    (hm : Aside exact m)
    (hk : ∀ a, Aside exact (k a)) :
    Aside exact (m >>= k) := by
  intro R f g hfg
  have hfirst := hm hfg
  rw [run_bind]
  generalize m.run.run f = p at hfirst ⊢
  obtain ⟨_ | a, f'⟩ := p
  · exact hfirst
  · exact hk a hfirst

theorem aside_get
    {k : Firing → Acting β}
    (hk : ∀ f {R g}, f.Alike exact R g → ((k f).run.run f).2.Alike exact R g) :
    Aside exact (get >>= k) :=
  fun hfg => hk _ hfg

theorem aside_mapM
    {l : List α} {m : α → Acting β}
    (hm : ∀ a, Aside exact (m a)) :
    Aside exact (l.mapM m) := by
  induction l with
  | nil =>
      rw [List.mapM_nil]
      exact aside_pure []
  | cons a rest ih =>
      rw [List.mapM_cons]
      exact aside_bind (hm a) fun b => aside_bind ih fun bs => aside_pure _

section Steps

variable {c : Collaborators} (hc : IsUniform c.evaluate)

include hc

/-- New cells belong to no pair. -/
theorem aside_evaluate
    (expression : String) :
    Aside exact (evaluate c expression) := by
  refine aside_get fun f R g hfg => ?_
  have halike := hc expression hfg.heap hfg.bindings
  generalize c.evaluate expression f.context.bindings f.agent.heap = answer at halike ⊢
  generalize c.evaluate expression f.context.bindings g.agent.heap = answer' at halike
  cases halike with
  | value hgrown hrr =>
      exact hfg.grow (fun _ _ hxy => hxy) (hfg.heap.of_extends_left hgrown.left)
  | fault e => exact hfg
  | panic => exact hfg

theorem aside_conditionMet
    (a : Action) :
    Aside exact (conditionMet c a) := by
  unfold conditionMet
  cases a.condition with
  | none => exact aside_pure true
  | some condition =>
      refine aside_bind (aside_evaluate hc condition) fun answer => ?_
      cases answer with
      | ok value =>
          refine aside_get fun f R g hfg => ?_
          exact hfg
      | error e => exact aside_pure false

/-! ### Snapshots in the rough view -/

omit hc in
theorem aside_beginSnapshot
    (tp : Tracepoint) :
    Aside false (beginSnapshot c tp) := by
  refine aside_get fun f R g hfg => ?_
  exact hfg.rough ⟨rfl, rfl⟩ ⟨rfl, rfl⟩

omit hc in
theorem aside_collectFrames :
    Aside false (collectFrames c) := by
  refine aside_get fun f R g hfg => ?_
  dsimp only
  cases f.context.frames with
  | some frames => exact hfg
  | none =>
      rcases Stack.collect f.agent.heap f.context.config c.inApp f.context.frame
        f.context.capture with ⟨_ | frames, capture⟩
      · exact hfg.rough ⟨rfl, rfl⟩ ⟨rfl, rfl⟩
      · exact hfg.rough ⟨rfl, rfl⟩ ⟨rfl, rfl⟩

theorem aside_watch
    (expression : String) (source : WatchSource) :
    Aside false (watch c expression source) := by
  refine aside_bind (aside_evaluate hc expression) fun answer => ?_
  cases answer with
  | error e =>
      exact aside_pure _
  | ok value =>
      refine aside_get fun f R g hfg => ?_
      dsimp only
      rcases walkOne f.agent.heap f.context.config.walkLimits expression value
        f.context.capture.table f.context.capture.budget with ⟨_ | id, table, budget⟩
      · exact hfg.rough ⟨rfl, rfl⟩ ⟨rfl, rfl⟩
      · exact hfg.rough ⟨rfl, rfl⟩ ⟨rfl, rfl⟩

/-- In the rough view a snapshot does not show, whether or not it is collected. -/
theorem aside_processSnapshot
    (tp : Tracepoint) :
    Aside false (processSnapshot c tp) := by
  refine aside_bind (aside_beginSnapshot tp) fun snapshot => ?_
  refine aside_bind aside_collectFrames fun frames => ?_
  refine aside_bind (aside_mapM fun e => aside_watch hc e .watch) fun watches => ?_
  refine aside_get fun f R g hfg => ?_
  exact hfg.leave_left rfl

theorem aside_processAction
    {a : Action}
    (ha : a.config = .snapshot) :
    Aside false (processAction c a) := by
  intro R f g hfg
  refine aside_bind (aside_conditionMet hc a) (fun met => ?_) (hfg.stage_left .evaluating)
  split
  · intro R f g hfg
    have hperform : Aside false (perform c a) := by
      unfold perform
      rw [ha]
      exact aside_processSnapshot hc a.tracepoint
    exact hperform (hfg.stage_left .processing)
  · exact aside_pure false

end Steps

end Acting

namespace Firing

/-! ### Turns -/

/-- Each action with the context at its turn. -/
def turns (c : Collaborators) : List Action → Firing → List (Action × Firing)
  | [], _ => []
  | a :: rest, f => (a, f) :: turns c rest (f.fire c a).2

/-- A limit stands against the action, or its condition does not hold. -/
def isIdle (c : Collaborators) (a : Action) (f : Firing) : Bool :=
  (f.refusal? a).isSome ||
    ((Acting.conditionMet c a).run.run (f.enter .evaluating)).1 == some false

namespace Alike

variable {exact : Bool} {R : Ref → Ref → Prop} {f g : Firing} {c : Collaborators}

/-- An idle action leaves nothing but cells. -/
theorem idle
    {a : Action}
    (hc : IsUniform c.evaluate)
    (h : f.Alike exact R g)
    (hidle : f.isIdle c a = true) :
    (f.fire c a).2.Alike exact R g := by
  unfold isIdle at hidle
  unfold Firing.fire
  cases hrefused : f.refusal? a with
  | some reason => exact h
  | none =>
      rw [hrefused, Option.isSome_none, Bool.false_or, beq_iff_eq] at hidle
      have haside := Acting.aside_conditionMet hc a (h.stage_left .evaluating)
      generalize hmet : (Acting.conditionMet c a).run.run (f.enter .evaluating) = p at hidle haside
      obtain ⟨met, f'⟩ := p
      dsimp only at hidle haside
      subst hidle
      have hrun : (Acting.processAction c a).run.run f = (some false, f') := by
        change (Acting.conditionMet c a >>= _).run.run (f.enter .evaluating) = _
        rw [Acting.run_bind, hmet]
        rfl
      simp only [contain, hrun]
      exact haside

/-- What an action does, without its record. -/
theorem contain
    {a : Action}
    (hc : IsUniform c.evaluate)
    (h : f.Alike exact R g)
    (ha : exact = true ∨ a.config ≠ .snapshot) :
    ∃ S, (∀ x y, R x y → S x y) ∧
      (f.contain (Acting.processAction c a)).1 = (g.contain (Acting.processAction c a)).1 ∧
      (f.contain (Acting.processAction c a)).2.Alike exact S
        (g.contain (Acting.processAction c a)).2 := by
  obtain ⟨S, hRS, hanswer, hafter⟩ := Acting.inStep_processAction hc ha f g h
  refine ⟨S, hRS, ?_⟩
  unfold Firing.contain
  generalize (Acting.processAction c a).run.run f = p at hanswer hafter ⊢
  generalize (Acting.processAction c a).run.run g = p' at hanswer hafter ⊢
  obtain ⟨_ | success, f'⟩ := p <;> obtain ⟨_ | success', g'⟩ := p' <;> cases hanswer
  · exact ⟨rfl, hafter.report _⟩
  · next hsame => exact ⟨hsame, hafter⟩

theorem record
    (h : f.Alike exact R g)
    (a : Action) :
    (f.record a).Alike exact R (g.record a) := by
  refine h.update ⟨rfl, rfl, rfl, rfl⟩ ⟨rfl, rfl, rfl, rfl⟩ ?_
  cases exact with
  | true => exact congrArg (Firing.record · a) h.view
  | false => exact h.view

/-- One action on both sides. -/
theorem fire
    {a : Action}
    (hc : IsUniform c.evaluate)
    (h : f.Alike exact R g)
    (ha : exact = true ∨ a.config ≠ .snapshot)
    (hrefusal : f.refusal? a = g.refusal? a) :
    ∃ S, (∀ x y, R x y → S x y) ∧ (f.fire c a).2.Alike exact S (g.fire c a).2 := by
  unfold Firing.fire
  rw [hrefusal]
  cases g.refusal? a with
  | some reason => exact ⟨R, fun _ _ hxy => hxy, h⟩
  | none =>
      obtain ⟨S, hRS, hsuccess, hafter⟩ := h.contain hc ha
      refine ⟨S, hRS, ?_⟩
      generalize f.contain (Acting.processAction c a) = p at hsuccess hafter ⊢
      generalize g.contain (Acting.processAction c a) = p' at hsuccess hafter ⊢
      obtain ⟨_ | _, f'⟩ := p <;> obtain ⟨_ | _, g'⟩ := p' <;> cases hsuccess
      · exact hafter
      · exact hafter.record a

/-- In the rough view an action that collects a snapshot stays aside. -/
theorem fire_snapshot
    {a : Action}
    (hc : IsUniform c.evaluate)
    (h : f.Alike false R g)
    (ha : a.config = .snapshot) :
    (f.fire c a).2.Alike false R g := by
  unfold Firing.fire
  cases f.refusal? a with
  | some reason => exact h
  | none =>
      have haside := Acting.aside_processAction hc ha h
      unfold Firing.contain
      generalize (Acting.processAction c a).run.run f = p at haside ⊢
      obtain ⟨_ | _ | _, f'⟩ := p
      · exact haside.rough ⟨rfl, rfl⟩ ⟨rfl, rfl⟩
      · exact haside
      · exact haside.rough ⟨rfl, rfl⟩ ⟨rfl, rfl⟩

/-- Whether an action fires depends on its own record alone. -/
theorem refusal?_eq
    {a : Action}
    (h : f.Alike exact R g)
    (hledger : f.agent.ledger.read a.key = g.agent.ledger.read a.key) :
    f.refusal? a = g.refusal? a := by
  rw [refusal?, refusal?, hledger, h.ts_eq]

/-- An action at its turn on both sides. -/
theorem turn
    {a : Action}
    (hc : IsUniform c.evaluate)
    (h : f.Alike exact R g)
    (hledger : f.agent.ledger.read a.key = g.agent.ledger.read a.key) :
    ∃ S, (∀ x y, R x y → S x y) ∧ (f.fire c a).2.Alike exact S (g.fire c a).2 := by
  by_cases ha : exact = true ∨ a.config ≠ .snapshot
  · exact h.fire hc ha (h.refusal?_eq hledger)
  · obtain ⟨hrough, hsnapshot⟩ := not_or.1 ha
    obtain rfl : exact = false := by simpa using hrough
    have hleft := h.fire_snapshot hc (not_not.1 hsnapshot)
    exact ⟨R, fun _ _ hxy => hxy, (hleft.symm.fire_snapshot hc (not_not.1 hsnapshot)).symm⟩

end Alike

/-! ### Processing without idle actions -/

/-- Two contexts agree on the records of actions: on all there are in the exact view, and else
on those of actions that are told apart by their keys. -/
def AgreeOn (exact : Bool) (f g : Firing) (actions : List Action) : Prop :=
  exact = true ∨ (actions.map Action.key).Nodup ∧
    ∀ a ∈ actions, f.agent.ledger.read a.key = g.agent.ledger.read a.key

variable {exact : Bool} {R : Ref → Ref → Prop} {f g : Firing} {c : Collaborators}

/-- An action leaves the statistics of all other keys alone. -/
theorem read_fire_of_ne
    {a : Action} {key : Nat}
    (f : Firing)
    (hkey : a.key ≠ key) :
    (f.fire c a).2.agent.ledger.read key = f.agent.ledger.read key := by
  rw [ledger_fire]
  split
  · exact FireLedger.read_write_of_ne _ _ hkey
  · rfl

/-- What the states agree on for later actions does not depend on the keys of the first. -/
theorem AgreeOn.tail
    {a : Action} {rest : List Action} {f' g' : Firing}
    (h : AgreeOn exact f g (a :: rest))
    (hf : ∀ key, a.key ≠ key → f'.agent.ledger.read key = f.agent.ledger.read key)
    (hg : ∀ key, a.key ≠ key → g'.agent.ledger.read key = g.agent.ledger.read key) :
    AgreeOn exact f' g' rest := by
  refine h.imp id ?_
  rintro ⟨hkeys, hledger⟩
  rw [List.map_cons, List.nodup_cons] at hkeys
  refine ⟨hkeys.2, fun b hb => ?_⟩
  have hkey : a.key ≠ b.key := fun heq => hkeys.1 (heq ▸ List.mem_map_of_mem hb)
  rw [hf b.key hkey, hg b.key hkey, hledger b (List.mem_cons_of_mem a hb)]

theorem Alike.read_eq
    {a : Action} {rest : List Action}
    (h : f.Alike exact R g)
    (hagree : AgreeOn exact f g (a :: rest)) :
    f.agent.ledger.read a.key = g.agent.ledger.read a.key := by
  rcases hagree with rfl | ⟨_, hledger⟩
  · exact h.visible_eq (·.agent.ledger.read a.key) fun _ => rfl
  · exact hledger a List.mem_cons_self

/-- Processing with idle actions and without them comes to alike contexts. -/
theorem Alike.process_filter
    {actions : List Action} {kept : Action → Bool}
    (hc : IsUniform c.evaluate)
    (h : f.Alike exact R g)
    (hidle : ∀ t ∈ f.turns c actions, kept t.1 = false → t.2.isIdle c t.1 = true)
    (hagree : AgreeOn exact f g actions) :
    ∃ S, (∀ x y, R x y → S x y) ∧
      (f.process c actions).2.Alike exact S (g.process c (actions.filter kept)).2 := by
  induction actions generalizing f g R with
  | nil =>
      exact ⟨R, fun _ _ hxy => hxy, h⟩
  | cons a rest ih =>
      have hlater : ∀ t ∈ (f.fire c a).2.turns c rest, kept t.1 = false → t.2.isIdle c t.1 = true :=
        fun t ht => hidle t (List.mem_cons_of_mem _ ht)
      cases hkept : kept a with
      | false =>
          have hfirst := h.idle hc (hidle (a, f) List.mem_cons_self hkept)
          rw [List.filter_cons_of_neg (by simp [hkept])]
          exact ih hfirst hlater (hagree.tail (fun _ => f.read_fire_of_ne) fun _ _ => rfl)
      | true =>
          obtain ⟨S, hRS, hfirst⟩ := h.turn hc (h.read_eq hagree)
          rw [List.filter_cons_of_pos hkept]
          obtain ⟨S', hSS, hrest⟩ := ih hfirst hlater
            (hagree.tail (fun _ => f.read_fire_of_ne) fun _ => g.read_fire_of_ne)
          exact ⟨S', fun x y hxy => hSS x y (hRS x y hxy), hrest⟩

end Firing
end LiveProbe
