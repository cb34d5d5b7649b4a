import LiveProbe.Proofs.Variable.Exact

/-!
# Walks level by level

What a walk has done when it is stopped before its end.

**Course.**  A walk is followed step by step (`Walk.after`).  On the way it is noted which
nodes were taken from the queue (`Walk.processed`), which were ever put there
(`Walk.queued`), and which of those taken got a number (`Walk.recorded`).

**Invariant.**  The queue stays in the order of depths (`Walk.IsLevelled`): what a step adds is
one deeper than the front, so it may stand behind everything that waits.

**Results.**
* `pairwise_queued`: all that is ever queued stands in the order of depths.
* `run_questions`: a walk whose time ends is one that is stopped after as many steps.
* `walks_in_levels`: what was done at any time is what lies nearest to the roots.
-/

namespace LiveProbe
namespace Walk

/-! ### The course of a walk -/

section Course

variable (h : Heap) (limits : WalkLimits)

/-- The walk after some steps, or at its end if that comes first. -/
def after (w : Walk) : Nat → Walk
  | 0 => w
  | k + 1 => if w.isOver limits then w else (w.step h limits).after k

/-- What is noted before each of the first steps. -/
def along (note : Walk → List Node) (w : Walk) : Nat → List Node
  | 0 => []
  | k + 1 => if w.isOver limits then [] else note w ++ along note (w.step h limits) k

/-- The node at the front. -/
def front (w : Walk) : List Node := w.queue.take 1

/-- The node at the front, if its value has no number. -/
def newcomer (w : Walk) : List Node :=
  w.front.filter fun n => !(w.table.number? n.child.value).isSome

/-- The nodes that a step puts behind those that waited. -/
def newly (w : Walk) : List Node := (w.step h limits).queue.drop w.queue.tail.length

/-- The nodes that the first steps take, in this order. -/
def processed (w : Walk) (k : Nat) : List Node := w.along h limits front k

/-- Those of them whose values are recorded then. -/
def recorded (w : Walk) (k : Nat) : List Node := w.along h limits newcomer k

/-- All nodes that have waited until then, in the order in which they came. -/
def queued (w : Walk) (k : Nat) : List Node := w.queue ++ w.along h limits (newly h limits) k

variable {h limits}
variable {w : Walk}

/-- No step is taken any more. -/
def Rests (limits : WalkLimits) (w : Walk) (k : Nat) : Prop := k = 0 ∨ w.isOver limits = true

theorem after_of_rests
    {k : Nat}
    (hrests : w.Rests limits k) :
    w.after h limits k = w := by
  cases k with
  | zero => rfl
  | succ k => simp [after, hrests.resolve_left (Nat.succ_ne_zero k)]

theorem after_succ
    (hover : w.isOver limits = false)
    (k : Nat) :
    w.after h limits (k + 1) = (w.step h limits).after h limits k := by
  simp [after, hover]

theorem along_of_rests
    (note : Walk → List Node)
    {k : Nat}
    (hrests : w.Rests limits k) :
    w.along h limits note k = [] := by
  cases k with
  | zero => rfl
  | succ k => simp [along, hrests.resolve_left (Nat.succ_ne_zero k)]

theorem along_succ
    (note : Walk → List Node)
    (hover : w.isOver limits = false)
    (k : Nat) :
    w.along h limits note (k + 1) = note w ++ (w.step h limits).along h limits note k := by
  simp [along, hover]

end Course

/-! ### One step -/

/-- The step that a walk takes from here: the front is attached under a number, and what joins
the queue is one deeper. -/
structure Takes (h : Heap) (limits : WalkLimits) (w : Walk) (n : Node) (rest joined : List Node)
    (number : Nat) : Prop where
  queue : w.queue = n :: rest
  advances : w.Advances n rest joined number (w.step h limits)
  deeper : ∀ m ∈ joined, m.depth = n.depth + 1
  references : ∀ parent, (w.step h limits).references parent =
    w.references parent ++ if n.parent = parent then [n.reference number] else []
  number : w.newcomer = [] ∧ (w.step h limits).table.size = w.table.size ∨
    w.newcomer = [n] ∧ number = w.table.size + 1 ∧
      (w.step h limits).table.size = w.table.size + 1

section Takes

variable {base : VariableTable} {h : Heap} {limits : WalkLimits} {w : Walk} {n : Node}
  {rest joined : List Node} {number : Nat}

theorem references_next
    (w : Walk) :
    w.references (some w.table.next) = [] := by
  have hnone : w.table.record? w.table.next = none := by
    simp [VariableTable.record?, VariableTable.next]
  simp [references, hnone]

/-- A node whose value is known is taken with nothing joining. -/
theorem takes_seen
    (hqueue : w.queue = n :: rest)
    (hparent : ∀ parent, n.parent = some parent → 0 < parent ∧ parent ≤ w.table.size)
    (hseen : w.table.number? n.child.value = some number) :
    w.Takes h limits n rest [] number := by
  have hstep : w.step h limits =
      ({ w with queue := rest, budget := w.budget.spend } : Walk).attach n number := by
    simp [step, hqueue, process, hseen]
  have hnone : w.newcomer = [] := by
    simp [newcomer, front, hqueue, hseen]
  refine ⟨hqueue, ?_, by simp, fun parent => ?_, .inl ⟨hnone, ?_⟩⟩
  · rw [hstep]
    exact Advances.of_popped
      (advances_seen (w := { w with queue := rest, budget := w.budget.spend }) hparent hseen)
  · rw [hstep]
    exact references_attach (w := { w with queue := rest, budget := w.budget.spend }) hparent
      number parent
  · rw [hstep, size_attach]

/-- A step that records a value attaches it and queues the children that there is room for. -/
theorem step_fresh
    (h : Heap) (limits : WalkLimits)
    (hqueue : w.queue = n :: rest)
    (hfresh : w.table.number? n.child.value = none) :
    let popped : Walk := { w with queue := rest, budget := w.budget.spend }
    let attached := (popped.enter h limits n).attach n w.table.next
    w.step h limits = attached.follow w.table.next (n.depth + 1)
      (isCut Room.left h limits attached.table n)
      (followed Room.left h limits attached.table n) := by
  intro popped attached
  simp only [step_eq_stepIn, stepIn, hqueue]
  exact processIn_fresh Room.left h limits hfresh

/-- A node whose value is new is taken with its children joining. -/
theorem takes_fresh
    (hqueue : w.queue = n :: rest)
    (hparent : ∀ parent, n.parent = some parent → 0 < parent ∧ parent ≤ w.table.size)
    (hfresh : w.table.number? n.child.value = none) :
    ∃ children : List Child, w.Takes h limits n rest
      (children.map fun c => ⟨c, n.depth + 1, some w.table.next⟩) w.table.next := by
  obtain ⟨popped, hpopped⟩ :
      ∃ popped : Walk, popped = { w with queue := rest, budget := w.budget.spend } := ⟨_, rfl⟩
  obtain ⟨cut, children, hstep⟩ : ∃ (cut : Bool) (children : List Child), w.step h limits =
      ((popped.enter h limits n).attach n w.table.next).follow w.table.next (n.depth + 1) cut
        children := by
    subst hpopped
    exact ⟨_, _, step_fresh h limits hqueue hfresh⟩
  have hadvances : w.Advances n rest
      (children.map fun c => ⟨c, n.depth + 1, some w.table.next⟩) w.table.next
      (w.step h limits) := by
    rw [hstep]
    subst hpopped
    exact Advances.of_popped (advances_fresh
      (w := { w with queue := rest, budget := w.budget.spend }) hparent hfresh h limits cut
      children)
  have hone : w.newcomer = [n] := by
    simp [newcomer, front, hqueue, hfresh]
  refine ⟨children, hqueue, hadvances, ?_, fun parent => ?_, .inr ⟨hone, rfl, ?_⟩⟩
  · intro m hm
    obtain ⟨c, _, rfl⟩ := List.mem_map.1 hm
    rfl
  · by_cases hnext : parent = some w.table.next
    · -- The record is new and has no children, and no node waits for it.
      have hother : n.parent ≠ some w.table.next := by
        intro hn
        have hle := (hparent _ hn).2
        simp [VariableTable.next, VariableTable.size] at hle
      have hempty := record?_fresh (w := popped) (by rw [hpopped]; exact hparent) h limits cut
        children
      rw [hnext, references_next, if_neg hother, hstep, references]
      subst hpopped
      rw [hempty]
      rfl
    · exact hadvances.references parent hnext
  · rw [hstep, size_follow, size_attach, size_enter, hpopped]

/-- A walk that is not over takes a step. -/
theorem exists_takes
    (hover : w.isOver limits = false)
    (hw : w.Tracks base limits) :
    ∃ n rest joined number, w.Takes h limits n rest joined number := by
  obtain ⟨n, rest, hqueue, -⟩ := of_not_isOver hover
  have hparent : ∀ parent, n.parent = some parent → 0 < parent ∧ parent ≤ w.table.size := by
    intro parent hp
    have := hw.parents n (by simp [hqueue]) parent hp
    omega
  rcases hnumber : w.table.number? n.child.value with _ | number
  · obtain ⟨children, htakes⟩ := takes_fresh hqueue hparent hnumber
    exact ⟨n, rest, _, _, htakes⟩
  · exact ⟨n, rest, [], number, takes_seen hqueue hparent hnumber⟩

/-- One step keeps the walk on the table it started from. -/
theorem tracks_step
    (hover : w.isOver limits = false)
    (hw : w.Tracks base limits) :
    (w.step h limits).Tracks base limits := by
  rw [step_eq_stepIn]
  exact tracks_stepIn hover hw

/-- A property holds along the course of a walk if it holds at rest, and of a step if it holds
of the steps behind it. -/
@[elab_as_elim]
theorem course_induction
    {motive : (w : Walk) → Nat → w.Tracks base limits → Prop}
    (rests : ∀ w k hw, w.Rests limits k → motive w k hw)
    (takes : ∀ w n rest joined number k hw (hover : w.isOver limits = false),
        w.Takes h limits n rest joined number →
        motive (w.step h limits) k (tracks_step hover hw) → motive w (k + 1) hw)
    (w : Walk) (k : Nat)
    (hw : w.Tracks base limits) :
    motive w k hw := by
  induction k generalizing w with
  | zero => exact rests w 0 hw (.inl rfl)
  | succ k ih =>
      cases hover : w.isOver limits with
      | true => exact rests w (k + 1) hw (.inr hover)
      | false =>
          obtain ⟨n, rest, joined, number, htakes⟩ := exists_takes (h := h) hover hw
          exact takes w n rest joined number k hw hover htakes (ih _ (tracks_step hover hw))

theorem Takes.front_eq
    (htakes : w.Takes h limits n rest joined number) :
    w.front = [n] := by
  simp [front, htakes.queue]

theorem Takes.newly_eq
    (htakes : w.Takes h limits n rest joined number) :
    w.newly h limits = joined := by
  simp [newly, htakes.queue, htakes.advances.queue]

/-- The value of the node taken is known behind the step. -/
theorem Takes.number?_front
    (htakes : w.Takes h limits n rest joined number) :
    (w.step h limits).table.number? n.child.value = some number := by
  rw [htakes.advances.number?, if_pos rfl]

/-- What the walk queues from here on is the front, and what it queues from the next step on. -/
theorem Takes.queued_succ
    (htakes : w.Takes h limits n rest joined number)
    (hover : w.isOver limits = false)
    (k : Nat) :
    w.queued h limits (k + 1) = n :: (w.step h limits).queued h limits k := by
  rw [queued, along_succ _ hover, htakes.newly_eq, queued, htakes.advances.queue, htakes.queue]
  simp

/-- The node taken is the first that is processed. -/
theorem Takes.processed_succ
    (htakes : w.Takes h limits n rest joined number)
    (hover : w.isOver limits = false)
    (k : Nat) :
    w.processed h limits (k + 1) = n :: (w.step h limits).processed h limits k := by
  rw [processed, along_succ _ hover, htakes.front_eq]
  rfl

end Takes

/-! ### The order of depths -/

section Order

variable {base : VariableTable} {h : Heap} {limits : WalkLimits} {w : Walk}

/-- Nothing is ever queued that is less deep than all that waits. -/
theorem le_depth_queued
    (hw : w.Tracks base limits)
    {d : Nat}
    (hd : ∀ m ∈ w.queue, d ≤ m.depth)
    (k : Nat) :
    ∀ m ∈ w.queued h limits k, d ≤ m.depth := by
  induction w, k, hw using course_induction (h := h) with
  | rests w k hw hrests => simpa [queued, along_of_rests _ hrests] using hd
  | takes w n rest joined number k hw hover htakes ih =>
      have hn : d ≤ n.depth := hd n (by simp [htakes.queue])
      have hstep : ∀ m ∈ (w.step h limits).queue, d ≤ m.depth := by
        intro m hm
        rw [htakes.advances.queue] at hm
        rcases List.mem_append.1 hm with hold | hnew
        · exact hd m (by simp [htakes.queue, hold])
        · have := htakes.deeper m hnew
          omega
      intro m hm
      rw [htakes.queued_succ hover] at hm
      rcases List.mem_cons.1 hm with rfl | hlater
      · exact hn
      · exact ih hstep m hlater

/-- All that is ever queued stands in the order of depths. -/
theorem pairwise_queued
    (hw : w.Tracks base limits)
    (hlevelled : w.IsLevelled)
    (k : Nat) :
    (w.queued h limits k).Pairwise fun m n => m.depth ≤ n.depth := by
  induction w, k, hw using course_induction (h := h) with
  | rests w k hw hrests => simpa [queued, along_of_rests _ hrests] using hlevelled.imp And.left
  | takes w n rest joined number k hw hover htakes ih =>
      have hstep := htakes.advances.isLevelled htakes.queue htakes.deeper hlevelled
      rw [IsLevelled, htakes.queue] at hlevelled
      have hfront : ∀ m ∈ (w.step h limits).queue, n.depth ≤ m.depth := by
        intro m hm
        rw [htakes.advances.queue] at hm
        rcases List.mem_append.1 hm with hold | hnew
        · exact ((List.pairwise_cons.1 hlevelled).1 m hold).1
        · have := htakes.deeper m hnew
          omega
      rw [htakes.queued_succ hover]
      exact .cons (le_depth_queued (tracks_step hover hw) hfront k) (ih hstep)

/-- Nodes are taken in the order in which they came. -/
theorem processed_append_queue
    (hw : w.Tracks base limits)
    (k : Nat) :
    w.processed h limits k ++ (w.after h limits k).queue = w.queued h limits k := by
  induction w, k, hw using course_induction (h := h) with
  | rests w k hw hrests =>
      simp [processed, queued, after_of_rests hrests, along_of_rests _ hrests]
  | takes w n rest joined number k hw hover htakes ih =>
      rw [htakes.processed_succ hover, htakes.queued_succ hover, after_succ hover,
        List.cons_append, ih]

/-- What was queued stays in its place. -/
theorem queued_grows
    (k later : Nat) :
    w.queued h limits k <+: w.queued h limits (k + later) := by
  have hnoted : ∀ w : Walk, w.along h limits (newly h limits) k <+:
      w.along h limits (newly h limits) (k + later) := by
    induction k with
    | zero => exact fun w => List.nil_prefix
    | succ k ih =>
        intro w
        rw [Nat.succ_add]
        cases hover : w.isOver limits with
        | true => simp [along_of_rests _ (.inr hover)]
        | false =>
            rw [along_succ _ hover, along_succ _ hover]
            exact (List.prefix_append_right_inj _).2 (ih _)
  exact (List.prefix_append_right_inj _).2 (hnoted w)

end Order

/-! ### Numbers and references -/

section Numbers

variable {base : VariableTable} {h : Heap} {limits : WalkLimits} {w : Walk}

/-- The nodes recorded are among those processed, in order. -/
theorem recorded_sublist
    (k : Nat) :
    (w.recorded h limits k).Sublist (w.processed h limits k) := by
  induction k generalizing w with
  | zero => exact List.Sublist.refl _
  | succ k ih =>
      cases hover : w.isOver limits with
      | true => simp [recorded, along_of_rests _ (.inr hover)]
      | false =>
          rw [recorded, processed, along_succ _ hover, along_succ _ hover]
          exact List.filter_sublist.append ih

/-- A number is kept. -/
theorem number?_after
    (hw : w.Tracks base limits)
    {r : Ref} {number : Nat}
    (hr : w.table.number? r = some number)
    (k : Nat) :
    (w.after h limits k).table.number? r = some number := by
  induction w, k, hw using course_induction (h := h) with
  | rests w k hw hrests => rwa [after_of_rests hrests]
  | takes w n rest joined _ k hw hover htakes ih =>
      rw [after_succ hover]
      exact ih (htakes.advances.keeps r number hr)

/-- The table grows by a record for each of them. -/
theorem size_after
    (hw : w.Tracks base limits)
    (k : Nat) :
    (w.after h limits k).table.size = w.table.size + (w.recorded h limits k).length := by
  induction w, k, hw using course_induction (h := h) with
  | rests w k hw hrests => simp [recorded, after_of_rests hrests, along_of_rests _ hrests]
  | takes w n rest joined number k hw hover htakes ih =>
      rw [after_succ hover, ih, recorded, recorded, along_succ _ hover]
      rcases htakes.number with ⟨hnone, hsize⟩ | ⟨hone, -, hsize⟩
      · simp [hnone, hsize]
      · simp [hone, hsize]
        omega

/-- Numbers follow the order in which values are recorded. -/
theorem numbers_recorded
    (hw : w.Tracks base limits)
    (k : Nat) :
    (w.recorded h limits k).map (fun n => (w.after h limits k).table.number? n.child.value) =
      (List.range' (w.table.size + 1) (w.recorded h limits k).length).map some := by
  induction w, k, hw using course_induction (h := h) with
  | rests w k hw hrests => simp [recorded, along_of_rests _ hrests]
  | takes w n rest joined number k hw hover htakes ih =>
      have hnumber := number?_after (h := h) (tracks_step hover hw) htakes.number?_front k
      rw [recorded, along_succ _ hover, after_succ hover]
      rcases htakes.number with ⟨hnone, hsize⟩ | ⟨hone, rfl, hsize⟩
      · rw [hsize] at ih
        rw [hnone]
        exact ih
      · rw [hsize] at ih
        rw [hone, List.cons_append, List.nil_append, List.map_cons, hnumber, List.length_cons,
          List.range'_succ, List.map_cons]
        exact congrArg _ ih

/-- Each node that was taken has one reference, under the id of its value. -/
theorem references_after
    (hw : w.Tracks base limits)
    (parent : Option Nat) (k : Nat) :
    ∃ added, (w.after h limits k).references parent = w.references parent ++ added ∧
      List.Forall₂ (w.after h limits k).table.Refers
        (((w.processed h limits k).filter fun n => n.parent = parent).map Node.child) added := by
  induction w, k, hw using course_induction (h := h) with
  | rests w k hw hrests =>
      exact ⟨[], by simp [after_of_rests hrests], by simp [processed, along_of_rests _ hrests]⟩
  | takes w n rest joined number k hw hover htakes ih =>
      obtain ⟨added, hadded, hrefers⟩ := ih
      rw [after_succ hover, htakes.processed_succ hover, hadded, htakes.references]
      by_cases hn : n.parent = parent
      · have hnumber := number?_after (h := h) (tracks_step hover hw) htakes.number?_front k
        have hfirst : ((w.step h limits).after h limits k).table.Refers n.child
            (n.reference number) := by
          simp [VariableTable.Refers, VariableTable.idFor?, hnumber, Node.reference]
        refine ⟨n.reference number :: added, by simp [hn], ?_⟩
        rw [List.filter_cons_of_pos (by simpa using hn)]
        exact .cons hfirst hrefers
      · refine ⟨added, by simp [hn], ?_⟩
        rw [List.filter_cons_of_neg (by simpa using hn)]
        exact hrefers

end Numbers

/-! ### Time -/

section Time

variable (h : Heap) (limits : WalkLimits)

/-- The walk with other time. -/
def withBudget (w : Walk) (budget : Budget) : Walk := { w with budget := budget }

theorem attach_withBudget
    (w : Walk) (budget : Budget) (n : Node) (number : Nat) :
    (w.withBudget budget).attach n number = (w.attach n number).withBudget budget := by
  cases hn : n.parent <;> simp [attach, withBudget, hn]

theorem process_withBudget
    (w : Walk) (budget : Budget) (n : Node) :
    (w.withBudget budget).process h limits n = (w.process h limits n).withBudget budget := by
  rw [process_eq_processIn, process_eq_processIn]
  cases hnumber : w.table.number? n.child.value with
  | none =>
      have hentered : (w.withBudget budget).enter h limits n =
          (w.enter h limits n).withBudget budget := rfl
      have hsame : (w.withBudget budget).table.number? n.child.value = none := hnumber
      rw [processIn_fresh _ _ _ hnumber, processIn_fresh _ _ _ hsame, hentered, attach_withBudget]
      rfl
  | some number =>
      have hsame : (w.withBudget budget).table.number? n.child.value = some number := hnumber
      rw [processIn_seen _ _ _ hnumber, processIn_seen _ _ _ hsame, attach_withBudget]

/-- A step asks for the time once and is otherwise the same whatever the time. -/
theorem step_withBudget
    (w : Walk) (budget : Budget)
    (hqueue : w.queue ≠ []) :
    (w.withBudget budget).step h limits = (w.step h limits).withBudget budget.spend := by
  obtain ⟨n, rest, hqueue⟩ := List.exists_cons_of_ne_nil hqueue
  have hpopped : (w.withBudget budget).step h limits =
      (({ w with queue := rest } : Walk).withBudget budget.spend).process h limits n := by
    simp [step, withBudget, hqueue]
  have hpopped' : w.step h limits =
      (({ w with queue := rest } : Walk).withBudget w.budget.spend).process h limits n := by
    simp [step, withBudget, hqueue]
  rw [hpopped, hpopped', process_withBudget, process_withBudget]
  rfl

theorem budget_step
    (w : Walk)
    (hqueue : w.queue ≠ []) :
    (w.step h limits).budget = w.budget.spend :=
  congrArg Walk.budget (step_withBudget h limits w w.budget hqueue)

/-- A walk whose time ends is one without bound on the time, stopped after as many steps. -/
theorem run_questions
    (w : Walk)
    (hw : w.budget = .unlimited)
    (k : Nat) :
    ((w.withBudget (.questions k)).run h limits).withBudget .unlimited = w.after h limits k := by
  induction k generalizing w with
  | zero =>
      have hover : (w.withBudget (.questions 0)).isOver limits = true := by
        simp [isOver, halted, withBudget, Budget.exceeded]
      rw [run, if_pos hover]
      simp [withBudget, after, ← hw]
  | succ k ih =>
      have hsame : (w.withBudget (.questions (k + 1))).isOver limits = w.isOver limits := by
        rw [isOver, isOver, halted, halted, hw]
        rfl
      cases hover : w.isOver limits with
      | true =>
          rw [run, if_pos (by rw [hsame, hover]), after_of_rests (.inr hover)]
          simp [withBudget, ← hw]
      | false =>
          obtain ⟨n, rest, hqueue, -⟩ := of_not_isOver hover
          have hne : w.queue ≠ [] := by simp [hqueue]
          have hstep : (w.step h limits).budget = .unlimited := by
            rw [budget_step h limits w hne, hw]
            rfl
          rw [run, if_neg (by simp [hsame, hover]), after_succ hover, step_withBudget _ _ _ _ hne]
          exact ih _ hstep

end Time

/-! ### The part nearest to the roots -/

/-- The first `k` steps of a walk go through the levels one after another. -/
structure InLevels (h : Heap) (limits : WalkLimits) (w : Walk) (k : Nat) : Prop where
  /-- Nodes are taken in the order in which they came. -/
  fifo : w.processed h limits k ++ (w.after h limits k).queue = w.queued h limits k
  /-- Depths do not fall. -/
  sorted : (w.processed h limits k).Pairwise fun m n : Node => m.depth ≤ n.depth
  /-- What is ever queued and is less deep than a node that was taken, was taken before it. -/
  shallower : ∀ (later i j : Nat) (m n : Node), (w.processed h limits k)[j]? = some m →
    (w.queued h limits (k + later))[i]? = some n → n.depth < m.depth →
      i < j ∧ (w.processed h limits k)[i]? = some n
  /-- Numbers follow this order. -/
  recorded : (w.recorded h limits k).Sublist (w.processed h limits k)
  size : (w.after h limits k).table.size = w.table.size + (w.recorded h limits k).length
  numbers : (w.recorded h limits k).map
      (fun n => (w.after h limits k).table.number? n.child.value) =
    (List.range' (w.table.size + 1) (w.recorded h limits k).length).map some
  /-- What was added to the roots and to the children of each record are the nodes that were
  taken. -/
  references : ∀ parent, ∃ added,
    (w.after h limits k).references parent = w.references parent ++ added ∧
      List.Forall₂ (w.after h limits k).table.Refers
        (((w.processed h limits k).filter fun n => n.parent = parent).map Node.child) added

section InLevels

variable {base : VariableTable} {h : Heap} {limits : WalkLimits} {w : Walk}

/-- A shallower node is processed before a deeper one, wherever it was queued. -/
theorem shallower_processed
    (hw : w.Tracks base limits)
    (hlevelled : w.IsLevelled)
    {k later i j : Nat} {m n : Node}
    (hm : (w.processed h limits k)[j]? = some m)
    (hn : (w.queued h limits (k + later))[i]? = some n)
    (hdepth : n.depth < m.depth) :
    i < j ∧ (w.processed h limits k)[i]? = some n := by
  have hsorted := pairwise_queued (h := h) hw hlevelled (k + later)
  obtain ⟨later', hqueued⟩ : w.processed h limits k <+: w.queued h limits (k + later) := by
    refine List.IsPrefix.trans ?_ (queued_grows k later)
    exact ⟨_, processed_append_queue hw k⟩
  obtain ⟨hj, hjm⟩ := List.getElem?_eq_some_iff.1 hm
  have hmqueued : (w.queued h limits (k + later))[j]? = some m := by
    rw [← hqueued, List.getElem?_append_left hj]
    exact hm
  obtain ⟨hj', hjm'⟩ := List.getElem?_eq_some_iff.1 hmqueued
  obtain ⟨hi', hin'⟩ := List.getElem?_eq_some_iff.1 hn
  have hlt : i < j := by
    by_contra hle
    rcases Nat.lt_or_eq_of_le (Nat.le_of_not_lt hle) with hji | rfl
    · have hpair := List.pairwise_iff_getElem.1 hsorted j i hj' hi' hji
      rw [hjm', hin'] at hpair
      omega
    · rw [hmqueued] at hn
      rw [Option.some.inj hn] at hdepth
      omega
  refine ⟨hlt, ?_⟩
  rw [← hqueued, List.getElem?_append_left (hlt.trans hj)] at hn
  exact hn

theorem inLevels
    (hw : w.Tracks base limits)
    (hlevelled : w.IsLevelled)
    (k : Nat) :
    w.InLevels h limits k where
  fifo := processed_append_queue hw k
  sorted := by
    have hsorted := pairwise_queued (h := h) hw hlevelled k
    rw [← processed_append_queue hw k] at hsorted
    exact (List.pairwise_append.1 hsorted).1
  shallower := fun _ _ _ _ _ hm hn hdepth => shallower_processed hw hlevelled hm hn hdepth
  recorded := recorded_sublist k
  size := size_after hw k
  numbers := numbers_recorded hw k
  references := fun parent => references_after hw parent k

/-- The steps of a walk come to its end. -/
theorem exists_after_eq_run
    (h : Heap) (limits : WalkLimits) (w : Walk) :
    ∃ last, ∀ k ≥ last, w.after h limits k = w.run h limits := by
  fun_induction run h limits w with
  | case1 w hover => exact ⟨0, fun k _ => after_of_rests (.inr hover)⟩
  | case2 w hover ih =>
      obtain ⟨last, hlast⟩ := ih
      refine ⟨last + 1, fun k hk => ?_⟩
      obtain ⟨k, rfl⟩ := Nat.exists_eq_add_of_le' (Nat.le_of_add_left_le hk)
      rw [after_succ (by simpa using hover)]
      exact hlast k (by omega)

end InLevels

/-- A walk goes level by level, at every time and to its end; and one whose time runs out is
the walk without a bound on the time, stopped after as many steps. -/
theorem walks_in_levels
    (h : Heap) (limits : WalkLimits) (bindings : List (String × Ref)) (table : VariableTable)
    (budget : Budget) :
    let w := start bindings table budget
    let free := start bindings table .unlimited
    (∀ k, w.InLevels h limits k) ∧
      (∃ last, ∀ k ≥ last, w.after h limits k = w.run h limits) ∧
      ∀ k, let stopped := (start bindings table (.questions k)).run h limits
        stopped.roots = (free.after h limits k).roots ∧
          stopped.table = (free.after h limits k).table := by
  intro w free
  refine ⟨inLevels (tracks_start table limits bindings budget)
    (isLevelled_start bindings table budget), exists_after_eq_run h limits w, fun k => ?_⟩
  have hstopped := run_questions h limits free rfl k
  rw [← hstopped]
  exact ⟨rfl, rfl⟩

end Walk
end LiveProbe
