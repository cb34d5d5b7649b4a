import LiveProbe.Proofs.Variable.Numbering

/-!
# Walks with any room

The walk over live values, with the number of children that are followed left
open.

**Room.**  When a value is recorded, at most as many of its children are followed
as there is *room*.  The walk of a capture gives what the bound on the variables
leaves (`Room.left`); a walk whose children are bounded by the size of collections
only gives room for all of them (`Room.ample`).

**Steps.**  A node is either *attached* to a record that exists (`processIn_seen`),
or its value is recorded, attached, and its children are queued
(`processIn_fresh`).  All that a walk changes, it changes by these three
operations.

**Results.**
* `run_eq_runIn`: the walk of a capture is the one with the room that is left.
* `runIn_invariant`: what a step before the end keeps, the whole walk keeps, and
  at its end the walk is over.
* `runIn_of_isAmple`: more room than there are children changes nothing.
-/

namespace LiveProbe

/-- The largest number of children to follow, told from the table that has the
record of a value, and from the value. -/
abbrev Room := Heap → WalkLimits → VariableTable → Ref → Nat

namespace Room

/-- What the bound on the variables leaves. -/
def left : Room := fun _ limits t _ => limits.maxVariables - t.size

/-- Room for every child. -/
def ample : Room := fun h _ _ r => h.childCount r

end Room

namespace Walk

variable (room : Room) (h : Heap) (limits : WalkLimits)

/-- Records the value of a node. -/
def enter (w : Walk) (n : Node) : Walk :=
  { w with table := w.table.register n.child.value (recordOf h limits n.child.value) }

/-- The children of a value that are followed, once the value of the node is
recorded. -/
def followed (t : VariableTable) (n : Node) : List Child :=
  if n.depth + 1 < limits.maxVarDepth then
    h.childrenUpTo
      (Heap.childCap limits (room h limits t n.child.value) (h.read n.child.value).kind)
      n.child.value
  else []

/-- Children are left out, once the value of the node is recorded. -/
def isCut (t : VariableTable) (n : Node) : Bool :=
  n.depth + 1 < limits.maxVarDepth &&
    Heap.childCap limits (room h limits t n.child.value) (h.read n.child.value).kind <
      h.childCount n.child.value

/-- Queues children of the record with a number. -/
def follow (w : Walk) (number depth : Nat) (cut : Bool) (children : List Child) : Walk :=
  { w with
    queue := w.queue ++ children.map fun c => ⟨c, depth, some number⟩
    table := if cut then w.table.markTruncated number else w.table }

/-- Processes a node that has been taken from the queue. -/
def processIn (w : Walk) (n : Node) : Walk :=
  match w.table.number? n.child.value with
  | some number => w.attach n number
  | none =>
      let number := w.table.next
      let attached := (w.enter h limits n).attach n number
      attached.follow number (n.depth + 1) (isCut room h limits attached.table n)
        (followed room h limits attached.table n)

/-- The nodes that join the queue when a node is processed. -/
def joining (w : Walk) (n : Node) : List Node :=
  match w.table.number? n.child.value with
  | some _ => []
  | none =>
      (followed room h limits ((w.enter h limits n).attach n w.table.next).table n).map
        fun c => ⟨c, n.depth + 1, some w.table.next⟩

/-- One step of the walk: the node at the front of the queue. -/
def stepIn (w : Walk) : Walk :=
  match w.queue with
  | [] => w
  | n :: rest =>
      ({ w with queue := rest, budget := w.budget.spend } : Walk).processIn room h limits n

@[simp] theorem size_follow
    (w : Walk) (number depth : Nat) (cut : Bool) (children : List Child) :
    (w.follow number depth cut children).table.size = w.table.size := by
  unfold follow
  split <;> simp

/-- A value that is known gets a further reference and nothing else. -/
theorem processIn_seen
    {w : Walk} {n : Node} {number : Nat}
    (hseen : w.table.number? n.child.value = some number) :
    w.processIn room h limits n = w.attach n number := by
  simp only [processIn, hseen]

/-- A value that is new is recorded, referred to and followed. -/
theorem processIn_fresh
    {w : Walk} {n : Node}
    (hfresh : w.table.number? n.child.value = none) :
    w.processIn room h limits n =
      ((w.enter h limits n).attach n w.table.next).follow w.table.next (n.depth + 1)
        (isCut room h limits ((w.enter h limits n).attach n w.table.next).table n)
        (followed room h limits ((w.enter h limits n).attach n w.table.next).table n) := by
  simp only [processIn, hfresh]

theorem queue_processIn
    (w : Walk) (n : Node) :
    (w.processIn room h limits n).queue = w.queue ++ w.joining room h limits n := by
  rcases hnum : w.table.number? n.child.value with _ | number
  · rw [processIn_fresh room h limits hnum]
    simp only [joining, hnum, follow, queue_attach, enter]
  · rw [processIn_seen room h limits hnum]
    simp only [joining, hnum, queue_attach, List.append_nil]

theorem parent_joining
    {w : Walk} {n m : Node}
    (hm : m ∈ w.joining room h limits n) :
    m.parent = some w.table.next := by
  unfold joining at hm
  split at hm
  · cases hm
  · obtain ⟨c, _, rfl⟩ := List.mem_map.1 hm
    rfl

theorem size_enter
    (w : Walk) (n : Node) :
    (w.enter h limits n).table.size = w.table.size + 1 := by
  simp [enter]

/-- Every step shortens the queue or uses up room in the table, whatever the room
for children is. -/
theorem measure_stepIn
    {w : Walk}
    (hw : w.isOver limits = false) :
    Prod.Lex (· < ·) (· < ·)
      (limits.maxVariables - (w.stepIn room h limits).table.size,
        (w.stepIn room h limits).queue.length)
      (limits.maxVariables - w.table.size, w.queue.length) := by
  simp only [isOver, halted, Bool.or_eq_false_iff, decide_eq_false_iff_not] at hw
  unfold stepIn
  split
  · next hq => simp [hq] at hw
  · next n rest hq =>
      rcases hnum : w.table.number? n.child.value with _ | number
      · rw [processIn_fresh room h limits (by exact hnum)]
        refine Prod.Lex.left _ _ ?_
        rw [size_follow, size_attach, size_enter]
        dsimp only
        omega
      · rw [processIn_seen room h limits (by exact hnum), size_attach, queue_attach, hq]
        exact Prod.Lex.right _ (by simp)

/-- The walk from a state to its end. -/
def runIn (w : Walk) : Walk :=
  if w.isOver limits then w else runIn (w.stepIn room h limits)
termination_by (limits.maxVariables - w.table.size, w.queue.length)
decreasing_by exact measure_stepIn room h limits (by simpa using ‹¬w.isOver limits = true›)

theorem runIn_of_isOver
    {w : Walk}
    (hw : w.isOver limits = true) :
    w.runIn room h limits = w := by
  rw [runIn, if_pos hw]

theorem runIn_of_not_isOver
    {w : Walk}
    (hw : w.isOver limits = false) :
    w.runIn room h limits = (w.stepIn room h limits).runIn room h limits := by
  rw [runIn, if_neg (by simp [hw])]

/-! ### The walk of a capture -/

/-- Expanding is following the children that room and limit allow. -/
theorem expand_eq_follow
    (room : Nat) (n : Node) (number : Nat) (w : Walk) :
    w.expand h limits room n number =
      w.follow number (n.depth + 1)
        (Heap.childCap limits room (h.read n.child.value).kind < h.childCount n.child.value)
        (h.childrenUpTo (Heap.childCap limits room (h.read n.child.value).kind) n.child.value) := by
  unfold expand follow
  by_cases hcut :
      Heap.childCap limits room (h.read n.child.value).kind < h.childCount n.child.value
  · simp only [hcut, decide_true, if_true]
    split
    · next hnone => simp [hnone]
    · rfl
  · simp only [hcut, decide_false, Bool.false_eq_true, if_false]
    split
    · next hnone => simp [hnone]
    · rfl

theorem follow_nil
    (w : Walk) (number depth : Nat) :
    w.follow number depth false [] = w := by
  simp [follow]

/-- The walk of the agent processes with the room that is left. -/
theorem process_eq_processIn
    (w : Walk) (n : Node) :
    w.process h limits n = w.processIn Room.left h limits n := by
  rcases hnum : w.table.number? n.child.value with _ | number
  · rw [processIn_fresh _ _ _ hnum]
    simp only [process, hnum, followed, isCut, Room.left, enter]
    by_cases hdepth : n.depth + 1 < limits.maxVarDepth
    · simp only [hdepth, decide_true, Bool.true_and, if_true]
      exact expand_eq_follow h limits _ n _ _
    · simp only [hdepth, decide_false, Bool.false_and, if_false]
      exact (follow_nil _ _ _).symm
  · rw [processIn_seen _ _ _ hnum]
    simp only [process, hnum]

theorem step_eq_stepIn
    (w : Walk) :
    w.step h limits = w.stepIn Room.left h limits := by
  rcases hqueue : w.queue with _ | ⟨n, rest⟩
  · simp only [step, stepIn, hqueue]
  · simp only [step, stepIn, hqueue]
    exact process_eq_processIn h limits _ _

theorem run_eq_runIn
    (w : Walk) :
    w.run h limits = w.runIn Room.left h limits := by
  fun_induction runIn Room.left h limits w with
  | case1 w hw => rw [run, if_pos hw]
  | case2 w hw ih => rw [run, if_neg hw, step_eq_stepIn, ih]

/-! ### Runs -/

/-- What every step before the end keeps, the whole walk keeps; and it ends. -/
theorem runIn_invariant
    {room : Room} {h : Heap} {limits : WalkLimits} {P : Walk → Prop}
    (hstep : ∀ w, w.isOver limits = false → P w → P (w.stepIn room h limits))
    (w : Walk)
    (hw : P w) :
    P (w.runIn room h limits) ∧ (w.runIn room h limits).isOver limits = true := by
  fun_induction runIn room h limits w with
  | case1 w hover => exact ⟨hw, hover⟩
  | case2 w hover ih => exact ih (hstep w (by simpa using hover) hw)

/-- A walk that is not over takes a node, with room for at least one record. -/
theorem of_not_isOver
    {limits : WalkLimits} {w : Walk}
    (hw : w.isOver limits = false) :
    ∃ n rest, w.queue = n :: rest ∧ w.table.size < limits.maxVariables ∧
      w.budget.exceeded = false ∧
      ∀ (room : Room) (h : Heap), w.stepIn room h limits =
        ({ w with queue := rest, budget := w.budget.spend } : Walk).processIn room h limits n := by
  simp only [isOver, halted, Bool.or_eq_false_iff, decide_eq_false_iff_not] at hw
  obtain ⟨hq, hsize, hbudget⟩ := hw
  rcases hqueue : w.queue with _ | ⟨n, rest⟩
  · simp [hqueue] at hq
  · refine ⟨n, rest, rfl, by omega, hbudget, fun room h => ?_⟩
    simp only [stepIn, hqueue]

/-! ### Attaching -/

section Attach

variable {w : Walk} {n : Node}

/-- A reference without a parent leaves the table. -/
theorem table_attach_root
    (hn : n.parent = none)
    (number : Nat) :
    (w.attach n number).table = w.table := by
  simp only [attach, hn]

theorem table_attach_child
    {parent : Nat}
    (hn : n.parent = some parent)
    (number : Nat) :
    (w.attach n number).table = w.table.addChild parent (n.reference number) := by
  simp only [attach, hn]

/-- A reference without a parent is one of those returned. -/
theorem roots_attach_root
    (hn : n.parent = none)
    (number : Nat) :
    (w.attach n number).roots = w.roots.push (n.reference number) := by
  simp only [attach, hn]

theorem roots_attach_child
    {parent : Nat}
    (hn : n.parent = some parent)
    (number : Nat) :
    (w.attach n number).roots = w.roots := by
  simp only [attach, hn]

@[simp] theorem budget_attach
    (number : Nat) :
    (w.attach n number).budget = w.budget := by
  unfold attach
  split <;> rfl

end Attach

end Walk

/-! ### Ample room -/

namespace Heap

/-- All children of a value. -/
def children (h : Heap) (r : Ref) : List Child := h.childrenUpTo (h.childCount r) r

theorem indexed_take
    (items : List Ref) (cap : Nat) :
    Child.indexed (items.take cap) = (Child.indexed items).take cap := by
  unfold Child.indexed
  rw [← List.map_take]
  congr 1
  refine List.ext_getElem (by simp) fun i _ _ => ?_
  simp

/-- The children that are followed are the first ones of all. -/
theorem childrenUpTo_eq_take
    (h : Heap) (cap : Nat) (r : Ref) :
    h.childrenUpTo cap r = (h.children r).take cap := by
  unfold children childrenUpTo childCount
  split <;> simp [indexed_take, List.map_take]

theorem length_children
    (h : Heap) (r : Ref) :
    (h.children r).length = h.childCount r := by
  unfold children childrenUpTo childCount
  split <;> simp [Child.indexed]

/-- Room beyond the number of children changes nothing: all that bounds them then is
the size of collections. -/
theorem ample_room
    (h : Heap) (limits : WalkLimits) (r : Ref)
    {room : Nat}
    (hroom : h.childCount r ≤ room) :
    h.childrenUpTo (childCap limits room (h.read r).kind) r =
      h.childrenUpTo (childCap limits (h.childCount r) (h.read r).kind) r := by
  rw [childrenUpTo_eq_take, childrenUpTo_eq_take, List.take_eq_take_iff, length_children]
  cases (h.read r).kind <;> simp only [childCap] <;> omega

/-- Nor does it change whether children are left out. -/
theorem childCap_lt_iff
    (h : Heap) (limits : WalkLimits) (r : Ref)
    {room : Nat}
    (hroom : h.childCount r ≤ room) :
    childCap limits room (h.read r).kind < h.childCount r ↔
      childCap limits (h.childCount r) (h.read r).kind < h.childCount r := by
  cases (h.read r).kind <;> simp only [childCap] <;> omega

end Heap

/-- There is room for every child. -/
def Room.IsAmple (room : Room) : Prop :=
  ∀ (h : Heap) (limits : WalkLimits) (t : VariableTable) (r : Ref),
    h.childCount r ≤ room h limits t r

/-- However much more room there is, it comes to the same. -/
theorem Walk.runIn_of_isAmple
    {room : Room}
    (hroom : room.IsAmple)
    (h : Heap) (limits : WalkLimits) (w : Walk) :
    w.runIn room h limits = w.runIn Room.ample h limits := by
  have hfollowed : ∀ (t : VariableTable) (n : Node),
      followed room h limits t n = followed Room.ample h limits t n := by
    intro t n
    unfold followed
    split
    · exact Heap.ample_room h limits n.child.value (hroom h limits t n.child.value)
    · rfl
  have hcut : ∀ (t : VariableTable) (n : Node),
      isCut room h limits t n = isCut Room.ample h limits t n := by
    intro t n
    unfold isCut
    congr 1
    exact decide_eq_decide.2
      (Heap.childCap_lt_iff h limits n.child.value (hroom h limits t n.child.value))
  have hstep : ∀ w : Walk, w.stepIn room h limits = w.stepIn Room.ample h limits := by
    intro w
    simp only [stepIn, processIn, hfollowed, hcut]
  fun_induction runIn Room.ample h limits w with
  | case1 w hw => exact runIn_of_isOver room h limits hw
  | case2 w hw ih =>
      rw [runIn_of_not_isOver room h limits (by simpa using hw), hstep, ih]

end LiveProbe
