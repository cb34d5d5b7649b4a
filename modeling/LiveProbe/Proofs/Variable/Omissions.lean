import LiveProbe.Proofs.Variable.Levels

/-!
# What a walk leaves out

Does the record of a value tell that children of it are missing?

**Specification.**  When a value is recorded, its first children join the queue, as many as
its kind and the room in the table allow (`Heap.offered`).  A record is marked if its text was
cut or if more children were there than were allowed (`Heap.content`).

**Invariant.**  Of the children that are allowed, the first are attached to the record, and
the others wait in the queue (`Walk.Accounts`).  What the walk halts before stays there.

**Results.**
* `accounts_recorded`: the invariant for all records at any time.
* `omissions_marked_iff`: at the end of a walk a record with missing children is marked, except
  if all children were allowed and the missing ones still wait.
* `halted_unmarked`: a list that has lost its only item and is not marked.
-/

namespace LiveProbe
namespace Heap

variable (h : Heap) (limits : WalkLimits)

/-- The largest number of children that are allowed under a number. -/
def allowance (number : Nat) (r : Ref) : Nat :=
  childCap limits (limits.maxVariables - number) (h.read r).kind

/-- The children of a node that is recorded under a number, as far as they are allowed. -/
def offered (number : Nat) (n : Node) : List Child :=
  if n.depth + 1 < limits.maxVarDepth then
    h.childrenUpTo (h.allowance limits number n.child.value) n.child.value
  else []

/-- There are more children than are allowed. -/
def isCurtailed (number : Nat) (n : Node) : Bool :=
  n.depth + 1 < limits.maxVarDepth &&
    h.allowance limits number n.child.value < h.childCount n.child.value

/-- The text of a value is cut. -/
def isShort (r : Ref) : Bool := (truncateChars limits.maxStringLength (h.summary r)).2

/-- The record of a node under a number, without references. -/
def content (number : Nat) (n : Node) : Variable :=
  { Walk.recordOf h limits n.child.value with
    truncated := h.isShort limits n.child.value || h.isCurtailed limits number n }

end Heap

namespace Walk

/-- The nodes that wait for a record. -/
def waiting (w : Walk) (number : Nat) : List Node :=
  w.queue.filter fun m => m.parent = some number

/-- What the record of a node tells at the end of a walk. -/
structure Tells (h : Heap) (limits : WalkLimits) (ended : Walk) (number : Nat) (n : Node)
    (v : Variable) : Prop where
  hash : v.hash = toString n.child.value
  truncated : v.truncated =
    (h.isShort limits n.child.value || h.isCurtailed limits number n)
  /-- The first of the children that were allowed are attached, and the others wait. -/
  serves : ended.Serves (some number) (n.depth + 1) (h.offered limits number n)
  children : v.children.size + (ended.waiting number).length = (h.offered limits number n).length
  /-- A record may miss children without being marked only while some of them wait. -/
  missing_marked_iff : n.depth + 1 < limits.maxVarDepth →
    ((v.children.size < h.childCount n.child.value → v.truncated = true) ↔
      (ended.waiting number = [] ∨ v.truncated = true))
  capped_marked : n.depth + 1 < limits.maxVarDepth →
    h.allowance limits number n.child.value < h.childCount n.child.value → v.truncated = true
  whole_unmarked : h.isShort limits n.child.value = false →
    v.children.size = h.childCount n.child.value → v.truncated = false

section Accounts

variable {base : VariableTable} {h : Heap} {limits : WalkLimits} {w : Walk} {n : Node}
  {rest : List Node}

/-! ### One step -/

/-- What the walk follows is what the value offers at that size of the table. -/
theorem followed_left_eq_offered
    (h : Heap) (limits : WalkLimits) (n : Node)
    {t : VariableTable} {number : Nat}
    (hsize : t.size = number) :
    followed Room.left h limits t n = h.offered limits number n ∧
      isCut Room.left h limits t n = h.isCurtailed limits number n := by
  subst hsize
  exact ⟨rfl, rfl⟩

/-- A value is recorded, and the children that are allowed join the queue. -/
theorem accounts_step
    (hw : w.Tracks base limits)
    (hqueue : w.queue = n :: rest)
    (hfresh : w.table.number? n.child.value = none) :
    (w.step h limits).Accounts w.table.next (h.content limits w.table.next n) (n.depth + 1)
      (h.offered limits w.table.next n) := by
  have hparents : ∀ m ∈ w.queue, ∀ parent, m.parent = some parent →
      0 < parent ∧ parent ≤ w.table.size := by
    intro m hm parent hparent
    obtain ⟨hbase, hle⟩ := hw.parents m hm parent hparent
    exact ⟨Nat.zero_lt_of_lt hbase, hle⟩
  have hparent := hparents n (by simp [hqueue])
  have hstep := step_fresh h limits hqueue hfresh
  -- The table has just got the number of the record, so the room is what that number leaves.
  have hsize : ((({ w with queue := rest, budget := w.budget.spend } : Walk).enter h limits
      n).attach n w.table.next).table.size = w.table.next := by
    rw [size_attach, size_enter]
    rfl
  obtain ⟨hfollowed, hcut⟩ := followed_left_eq_offered h limits n hsize
  dsimp only at hstep
  rw [hfollowed, hcut] at hstep
  have hadvances := Advances.of_popped (advances_fresh
    (w := { w with queue := rest, budget := w.budget.spend }) hparent hfresh h limits
    (h.isCurtailed limits w.table.next n) (h.offered limits w.table.next n))
  have hrecord := record?_fresh (w := { w with queue := rest, budget := w.budget.spend }) hparent
    h limits (h.isCurtailed limits w.table.next n) (h.offered limits w.table.next n)
  rw [hstep]
  refine ⟨⟨_, hrecord, rfl⟩, serves_joined (w := w) hadvances ?_ ?_⟩
  · intro m hm parent hm'
    exact (hparents m (by simp [hqueue, hm]) parent hm').2
  · rw [references, hrecord]
    rfl

/-! ### The whole walk -/

/-- What is accounted for stays so. -/
theorem accounts_after
    {number depth : Nat} {content : Variable} {children : List Child}
    (hw : w.Tracks base limits)
    (haccounts : w.Accounts number content depth children)
    (k : Nat) :
    (w.after h limits k).Accounts number content depth children := by
  induction w, k, hw using course_induction (h := h) with
  | rests w k hw hrests => rwa [after_of_rests hrests]
  | takes w n rest joined m k hw hover htakes ih =>
      rw [after_succ hover]
      exact ih (haccounts.advance htakes.queue htakes.advances)

/-- At any time the children of the records that were made are attached or wait. -/
theorem accounts_recorded
    (hw : w.Tracks base limits)
    (k : Nat)
    {i : Nat}
    (hn : (w.recorded h limits k)[i]? = some n) :
    (w.after h limits k).Accounts (w.table.size + 1 + i)
      (h.content limits (w.table.size + 1 + i) n) (n.depth + 1)
      (h.offered limits (w.table.size + 1 + i) n) := by
  induction w, k, hw using course_induction (h := h) generalizing i with
  | rests w k hw hrests => simp [recorded, along_of_rests _ hrests] at hn
  | takes w front rest joined number k hw hover htakes ih =>
      rw [after_succ hover]
      rw [recorded, along_succ _ hover] at hn
      rcases htakes.number with ⟨hnone, hsize⟩ | ⟨hone, -, hsize⟩
      · rw [hnone] at hn
        have haccounts := ih hn
        rwa [hsize] at haccounts
      · rw [hone] at hn
        cases i with
        | zero =>
            obtain rfl : front = n := Option.some.inj hn
            have hfresh : w.table.number? front.child.value = none := by
              simpa [newcomer, Walk.front, htakes.queue] using hone
            exact accounts_after (tracks_step hover hw) (accounts_step hw htakes.queue hfresh) k
        | succ i =>
            have haccounts := ih hn
            rwa [hsize, Nat.add_right_comm _ 1 1, Nat.add_assoc _ 1 i, Nat.add_comm 1 i]
              at haccounts

/-! ### The end of a walk -/

/-- A value offers as many children as it is allowed, where it is expanded. -/
theorem length_offered
    (hdepth : n.depth + 1 < limits.maxVarDepth)
    (number : Nat) :
    (h.offered limits number n).length =
      min (h.allowance limits number n.child.value) (h.childCount n.child.value) := by
  rw [Heap.offered, if_pos hdepth, Heap.childrenUpTo_eq_take, List.length_take,
    Heap.length_children]

theorem isCurtailed_eq
    (hdepth : n.depth + 1 < limits.maxVarDepth)
    (number : Nat) :
    h.isCurtailed limits number n =
      decide (h.allowance limits number n.child.value < h.childCount n.child.value) := by
  rw [Heap.isCurtailed, decide_eq_true hdepth, Bool.true_and]

/-- The children given and those still waiting are all that were offered. -/
theorem Serves.length_references
    {number depth : Nat} {children : List Child}
    (hserves : w.Serves (some number) depth children) :
    (w.references (some number)).length + (w.waiting number).length = children.length := by
  obtain ⟨done, todo, rfl, hdone, htodo⟩ := hserves
  rw [waiting, htodo, ← hdone.length_eq, List.length_map, List.length_append]

/-- A record that accounts for its children tells how many are waiting and whether it was
curtailed. -/
theorem Accounts.tells
    {number : Nat}
    (haccounts : w.Accounts number (h.content limits number n) (n.depth + 1)
        (h.offered limits number n)) :
    ∃ v, w.table.record? number = some v ∧ Tells h limits w number n v := by
  obtain ⟨⟨v, hv, hcontent⟩, hserves⟩ := haccounts
  have htruncated : v.truncated =
      (h.isShort limits n.child.value || h.isCurtailed limits number n) :=
    congrArg Variable.truncated hcontent
  have hchildren : v.children.size + (w.waiting number).length =
      (h.offered limits number n).length := by
    rw [← hserves.length_references, references, hv]
    rfl
  refine ⟨v, hv, congrArg Variable.hash hcontent, htruncated, hserves, hchildren,
    fun hdepth => ?_, fun hdepth hcapped => ?_, fun hshort hwhole => ?_⟩
  · rw [length_offered hdepth] at hchildren
    rcases Nat.lt_or_ge (h.allowance limits number n.child.value)
      (h.childCount n.child.value) with hcapped | hall
    · have hmarked : v.truncated = true := by
        rw [htruncated, isCurtailed_eq hdepth, decide_eq_true hcapped, Bool.or_true]
      simp [hmarked]
    · -- All children joined the queue, so the missing ones still wait there.
      rw [min_eq_right hall] at hchildren
      constructor
      · intro hmarked
        refine or_iff_not_imp_left.2 fun hwaiting => hmarked ?_
        have := List.length_pos_iff.2 hwaiting
        omega
      · rintro (hnone | hmarked) hmissing
        · rw [hnone, List.length_nil] at hchildren
          omega
        · exact hmarked
  · rw [htruncated, isCurtailed_eq hdepth, decide_eq_true hcapped, Bool.or_true]
  · rw [htruncated, hshort, Bool.false_or]
    by_contra hcut
    obtain ⟨hdepth, hcapped⟩ : n.depth + 1 < limits.maxVarDepth ∧
        h.allowance limits number n.child.value < h.childCount n.child.value := by
      simpa [Heap.isCurtailed] using hcut
    rw [length_offered hdepth, min_eq_left hcapped.le] at hchildren
    omega

end Accounts

/-- A walk without a bound on the time ends with its queue or with a full table. -/
theorem queue_eq_nil_or_full
    (h : Heap) (limits : WalkLimits) (w : Walk)
    (hw : w.budget = .unlimited) :
    (w.run h limits).queue = [] ∨ limits.maxVariables ≤ (w.run h limits).table.size := by
  have hstep : ∀ v : Walk, v.isOver limits = false → v.budget = .unlimited →
      (v.stepIn Room.left h limits).budget = .unlimited := by
    intro v hover hv
    obtain ⟨n, rest, hqueue, -⟩ := of_not_isOver hover
    rw [← step_eq_stepIn, budget_step h limits v (by simp [hqueue]), hv]
    rfl
  obtain ⟨hbudget, hover⟩ := runIn_invariant hstep w hw
  rw [← run_eq_runIn] at hbudget hover
  simpa [isOver, halted, hbudget, Budget.exceeded] using hover

/-- Every record that a walk makes tells what is missing of the children of its value, apart
from what waits where the walk halts at a full table. -/
theorem omissions_marked_iff
    (h : Heap) (limits : WalkLimits) (bindings : List (String × Ref)) (table : VariableTable) :
    let w := start bindings table .unlimited
    let ended := w.run h limits
    (ended.queue = [] ∨ limits.maxVariables ≤ ended.table.size) ∧
      ∃ steps, w.after h limits steps = ended ∧
        ended.table.size = table.size + (w.recorded h limits steps).length ∧
        ∀ i n, (w.recorded h limits steps)[i]? = some n →
          ∃ v, ended.table.record? (table.size + 1 + i) = some v ∧
            Tells h limits ended (table.size + 1 + i) n v := by
  intro w ended
  have hw : w.Tracks table limits := tracks_start table limits bindings .unlimited
  obtain ⟨steps, hsteps⟩ := exists_after_eq_run h limits w
  have hended : w.after h limits steps = ended := hsteps steps le_rfl
  refine ⟨queue_eq_nil_or_full h limits w rfl, steps, hended, ?_, fun i n hn => ?_⟩
  · rw [← hended, size_after hw]
    rfl
  · have haccounts := accounts_recorded hw steps hn
    rw [hended] at haccounts
    exact haccounts.tells

/-- Two lists, at 1 and 3, of a number each. -/
def twoLists : Heap := ⟨#[.int 1, .list [0], .int 2, .list [2]]⟩

/-- Up to three variables. -/
def threeVariables : WalkLimits := { WalkLimits.standard with maxVariables := 3 }

/-- The table is full before the item of the second list, whose record is not marked. -/
theorem halted_unmarked :
    let w := start [("a", 1), ("b", 3)] .empty .unlimited
    (w.recorded twoLists threeVariables 3)[1]? = some (.root "b" 3) ∧
      0 + 1 < threeVariables.maxVarDepth ∧ twoLists.childCount 3 = 1 ∧
      (w.run twoLists threeVariables).table.record? 2 =
        some ⟨"list", "Size: 1", "3", #[], false⟩ := by
  intro w
  exact ⟨by cbv, by decide, rfl, by cbv⟩

end Walk
end LiveProbe
