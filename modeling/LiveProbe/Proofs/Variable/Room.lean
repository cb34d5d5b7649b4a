import Mathlib.Data.List.Permutation
import LiveProbe.Proofs.Variable.Capture

/-!
# The room for children

When does it matter that a walk follows only as many children as the bound on the
variables leaves room for?

A child whose value was recorded before uses up no room.  Among the children that
are left out there may thus be some that the walk would have reached with room to
spare.  Two walks are compared: the *narrow* one of a capture, and the *wide* one
with room for every child (`Room.ample`).

**Invariant.**  As long as no child that the narrow walk left out reaches the front
of the wide queue, both walks process the same nodes: their tables agree and the
narrow queue is the wide one without children beyond the room of their parents
(`Walk.Shadows`).  A left-out child that is processed gives its parent more
children than there was room for.

**Results.**
* `narrow_agrees_wide_iff`: both walks record and refer to the same exactly if in the
  wide walk no record ends with more children than there was room when it was
  made.
* `narrow_misses_shared`: a dictionary with one value under three keys and another
  under a fourth, of which the narrow walk loses the fourth though the table has
  room for it.
-/

namespace LiveProbe

/-- The record without the mark of truncation. -/
def Variable.unmarked (v : Variable) : Variable := { v with truncated := false }

namespace VariableTable

/-- The number of references of a record. -/
def childCount (t : VariableTable) (number : Nat) : Nat :=
  match t.record? number with
  | some v => v.children.size
  | none => 0

/-- Both tables know the same values under the same numbers, with the same records;
marks of truncation are left aside. -/
structure Agrees (t u : VariableTable) : Prop where
  size : t.size = u.size
  number? : ∀ r, t.number? r = u.number? r
  record? : ∀ number,
    (t.record? number).map Variable.unmarked = (u.record? number).map Variable.unmarked

/-- Every record that was made after `base` has no more children than there was room
when it was made. -/
def Fits (t base : VariableTable) (limits : WalkLimits) : Prop :=
  ∀ number, base.size < number → t.childCount number ≤ limits.maxVariables - number

/-! ### Numbers of children -/

section ChildCount

variable {t u : VariableTable}

theorem childCount_of_size_lt
    {number : Nat}
    (hn : t.size < number) :
    t.childCount number = 0 := by
  unfold childCount
  split
  · next v hv =>
      have := le_size_of_record? hv
      omega
  · rfl

theorem childCount_register
    (t : VariableTable) (r : Ref)
    {v : Variable}
    (hleaf : v.children = #[])
    (number : Nat) :
    (t.register r v).childCount number = t.childCount number := by
  by_cases hn : number = t.size + 1
  · rw [childCount_of_size_lt (t := t) (by omega)]
    simp [childCount, record?_register, hn, hleaf]
  · simp [childCount, record?_register, hn]

theorem childCount_addChild
    (t : VariableTable)
    {parent : Nat}
    (hpos : 0 < parent)
    (hle : parent ≤ t.size)
    (child : VariableId) (number : Nat) :
    (t.addChild parent child).childCount number =
      t.childCount number + if parent = number then 1 else 0 := by
  unfold childCount addChild
  rw [record?_modify t hpos]
  by_cases hn : number = parent
  · subst hn
    obtain ⟨v, hv⟩ := exists_record?.2 ⟨hpos, hle⟩
    simp [hv]
  · rw [if_neg hn, if_neg (Ne.symm hn), Nat.add_zero]

theorem childCount_markTruncated
    (t : VariableTable)
    {target : Nat}
    (hpos : 0 < target)
    (number : Nat) :
    (t.markTruncated target).childCount number = t.childCount number := by
  unfold childCount markTruncated
  rw [record?_modify t hpos]
  by_cases hn : number = target
  · rw [if_pos hn]
    cases t.record? number <;> rfl
  · rw [if_neg hn]

end ChildCount

/-! ### Agreeing tables -/

section Agrees

variable {t u : VariableTable}

theorem agrees_refl
    (t : VariableTable) :
    t.Agrees t := ⟨rfl, fun _ => rfl, fun _ => rfl⟩

theorem Agrees.childCount
    (htu : t.Agrees u)
    (number : Nat) :
    t.childCount number = u.childCount number := by
  have hrecord := htu.record? number
  unfold VariableTable.childCount
  rcases ht : t.record? number with _ | v <;> rcases hu : u.record? number with _ | w <;>
    simp_all [Variable.unmarked]

theorem agrees_register
    (htu : t.Agrees u)
    (r : Ref) (v : Variable) :
    (t.register r v).Agrees (u.register r v) := by
  refine ⟨by simp [htu.size], fun s => ?_, fun number => ?_⟩
  · rw [number?_register, number?_register, htu.size, htu.number?]
  · rw [record?_register, record?_register, htu.size]
    split
    · rfl
    · exact htu.record? number

theorem agrees_addChild
    (htu : t.Agrees u)
    {parent : Nat}
    (hpos : 0 < parent)
    (child : VariableId) :
    (t.addChild parent child).Agrees (u.addChild parent child) := by
  refine ⟨by simp [htu.size], htu.number?, fun number => ?_⟩
  have hrecord := htu.record? number
  unfold addChild
  rw [record?_modify t hpos, record?_modify u hpos]
  split
  · rcases ht : t.record? number with _ | v <;> rcases hu : u.record? number with _ | w <;>
      simp_all [Variable.unmarked]
  · exact hrecord

/-- Marks do not count. -/
theorem agrees_mark
    (htu : t.Agrees u)
    {number : Nat}
    (hpos : 0 < number)
    (cut wideCut : Bool) :
    (if cut then t.markTruncated number else t).Agrees
      (if wideCut then u.markTruncated number else u) := by
  have hmark : ∀ (x : VariableTable) (b : Bool) (k : Nat),
      ((if b then x.markTruncated number else x).record? k).map Variable.unmarked =
        (x.record? k).map Variable.unmarked := by
    intro x b k
    cases b with
    | false => rfl
    | true =>
        rw [if_pos rfl, markTruncated, record?_modify x hpos]
        split
        · cases x.record? k <;> rfl
        · rfl
  refine ⟨?_, ?_, fun k => ?_⟩
  · cases cut <;> cases wideCut <;> simp [htu.size]
  · cases cut <;> cases wideCut <;> exact htu.number?
  · rw [hmark, hmark]
    exact htu.record? k

end Agrees

end VariableTable

namespace Walk

/-- Both walks made the same records and references; marks of truncation are left
aside. -/
structure Agrees (v w : Walk) : Prop where
  roots : v.roots = w.roots
  table : v.table.Agrees w.table

/-- Counts of children, with one more for the parent of a node. -/
def credit (n : Node) (count : Nat → Nat) : Nat → Nat :=
  fun number => count number + if n.parent = some number then 1 else 0

/-- The second queue is the first without children beyond what `bound` allows their
parents.  The counts are those of the children attached so far and of those
further in front. -/
inductive Thinned (bound : Nat → Nat) : (Nat → Nat) → List Node → List Node → Prop
  | nil (count : Nat → Nat) : Thinned bound count [] []
  | keep {count : Nat → Nat} (n : Node) {wide narrow : List Node} :
      Thinned bound (credit n count) wide narrow →
      Thinned bound count (n :: wide) (n :: narrow)
  | drop {count : Nat → Nat} (n : Node) {wide narrow : List Node} {parent : Nat} :
      n.parent = some parent →
      bound parent ≤ count parent →
      Thinned bound (credit n count) wide narrow →
      Thinned bound count (n :: wide) narrow

/-! ### Thinned queues -/

section Thinned

variable {bound : Nat → Nat}

theorem thinned_self
    (count : Nat → Nat) (queue : List Node) :
    Thinned bound count queue queue := by
  induction queue generalizing count with
  | nil => exact Thinned.nil count
  | cons n rest ih => exact Thinned.keep n (ih _)

theorem Thinned.eq_nil
    {count : Nat → Nat} {narrow : List Node}
    (h : Thinned bound count [] narrow) :
    narrow = [] := by
  cases h
  rfl

theorem thinned_append
    {count : Nat → Nat} {wide narrow : List Node}
    (h : Thinned bound count wide narrow)
    {more fewer : List Node}
    (hmore : ∀ later : Nat → Nat, Thinned bound later more fewer) :
    Thinned bound count (wide ++ more) (narrow ++ fewer) := by
  induction h with
  | nil count => exact hmore count
  | keep n _ ih => exact Thinned.keep n ih
  | drop n hp hbound _ ih => exact Thinned.drop n hp hbound ih

/-- The children of one parent, cut to their number's bound. -/
theorem thinned_take
    {parent : Nat} {children : List Node}
    (hparent : ∀ n ∈ children, n.parent = some parent)
    (kept : Nat)
    {count : Nat → Nat}
    (hbound : bound parent ≤ count parent + kept) :
    Thinned bound count children (children.take kept) := by
  induction children generalizing kept count with
  | nil =>
      rw [List.take_nil]
      exact Thinned.nil count
  | cons n rest ih =>
      have hn := hparent n List.mem_cons_self
      have hrest : ∀ m ∈ rest, m.parent = some parent := fun m hm =>
        hparent m (List.mem_cons_of_mem n hm)
      have hcredit : credit n count parent = count parent + 1 := by simp [credit, hn]
      cases kept with
      | zero =>
          have hlater : Thinned bound (credit n count) rest (rest.take 0) :=
            ih hrest 0 (by omega)
          rw [List.take_zero] at hlater ⊢
          exact Thinned.drop n hn hbound hlater
      | succ kept => exact Thinned.keep n (ih hrest kept (by omega))

end Thinned

/-! ### One node in two walks -/

section Node

variable {base : VariableTable} {h : Heap} {limits : WalkLimits} {w : Walk} {n : Node}

theorem childCount_attach
    (hn : w.Belongs base n)
    (number : Nat) :
    (w.attach n number).table.childCount = credit n w.table.childCount := by
  funext k
  rcases hp : n.parent with _ | parent
  · rw [table_attach_root hp]
    simp [credit, hp]
  · obtain ⟨hbase, hle⟩ := hn parent hp
    rw [table_attach_child hp, VariableTable.childCount_addChild _ (by omega) hle]
    simp [credit, hp]

theorem childCount_enter
    (w : Walk) (n : Node) :
    (w.enter h limits n).table.childCount = w.table.childCount := by
  funext k
  exact VariableTable.childCount_register _ _ rfl k

theorem childCount_follow
    {number : Nat}
    (hpos : 0 < number)
    (depth : Nat) (cut : Bool) (children : List Child) :
    (w.follow number depth cut children).table.childCount = w.table.childCount := by
  funext k
  cases cut with
  | false => rfl
  | true => exact VariableTable.childCount_markTruncated _ hpos k

theorem childCount_processIn
    (room : Room)
    (hn : w.Belongs base n) :
    (w.processIn room h limits n).table.childCount = credit n w.table.childCount := by
  have hpos : 0 < w.table.next := Nat.succ_pos _
  rcases hnum : w.table.number? n.child.value with _ | number
  · rw [processIn_fresh room h limits hnum, childCount_follow hpos,
      childCount_attach (belongs_enter hn), childCount_enter]
  · rw [processIn_seen room h limits hnum, childCount_attach hn]

theorem budget_processIn
    (room : Room) (w : Walk) (n : Node) :
    (w.processIn room h limits n).budget = w.budget := by
  rcases hnum : w.table.number? n.child.value with _ | number
  · rw [processIn_fresh room h limits hnum]
    simp only [follow, budget_attach, enter]
  · rw [processIn_seen room h limits hnum, budget_attach]

/-- The narrow walk follows the first children of the wide one, as many as there is
room. -/
theorem followed_left
    {t u : VariableTable}
    (hsize : t.size = u.size)
    (n : Node) :
    followed Room.left h limits t n =
      (followed Room.ample h limits u n).take (limits.maxVariables - u.size) := by
  unfold followed Room.left Room.ample
  split
  · rw [Heap.childrenUpTo_eq_take, Heap.childrenUpTo_eq_take, List.take_take,
      List.take_eq_take_iff, Heap.length_children, hsize]
    cases (h.read n.child.value).kind <;> simp only [Heap.childCap] <;> omega
  · exact List.take_nil.symm

/-- With the room that is left, as many nodes join as there is room, the first of them. -/
theorem joining_left
    {v : Walk}
    (hvw : v.table.Agrees w.table)
    (n : Node) :
    v.joining Room.left h limits n =
      (w.joining Room.ample h limits n).take (limits.maxVariables - w.table.next) := by
  have hsame := hvw.number? n.child.value
  have hnext : v.table.next = w.table.next := congrArg Nat.succ hvw.size
  have hsize : ∀ x : Walk, ((x.enter h limits n).attach n x.table.next).table.size =
      x.table.next := by
    intro x
    rw [size_attach, size_enter]
    rfl
  unfold joining
  rcases hnum : w.table.number? n.child.value with _ | number
  · rw [hsame, hnum]
    dsimp only
    rw [followed_left ((hsize v).trans (hnext.trans (hsize w).symm)), hsize w, hnext,
      List.map_take]
  · rw [hsame, hnum]
    exact List.take_nil.symm

theorem agrees_attach
    {v : Walk}
    (hvw : v.Agrees w)
    (hn : w.Belongs base n)
    (number : Nat) :
    (v.attach n number).Agrees (w.attach n number) := by
  rcases hp : n.parent with _ | parent
  · constructor
    · rw [roots_attach_root hp, roots_attach_root hp, hvw.roots]
    · rw [table_attach_root hp, table_attach_root hp]
      exact hvw.table
  · have hpos := (hn parent hp).1
    constructor
    · rw [roots_attach_child hp, roots_attach_child hp, hvw.roots]
    · rw [table_attach_child hp, table_attach_child hp]
      exact VariableTable.agrees_addChild hvw.table (by omega) _

/-- The same node leaves agreeing walks in agreement. -/
theorem agrees_processIn
    {v : Walk}
    (hvw : v.Agrees w)
    (hn : w.Belongs base n) :
    (v.processIn Room.left h limits n).Agrees (w.processIn Room.ample h limits n) := by
  have hsame := hvw.table.number? n.child.value
  rcases hnum : w.table.number? n.child.value with _ | number
  · have hnext : v.table.next = w.table.next := congrArg Nat.succ hvw.table.size
    have hentered : (v.enter h limits n).Agrees (w.enter h limits n) :=
      ⟨hvw.roots, VariableTable.agrees_register hvw.table _ _⟩
    have hattached := agrees_attach hentered (belongs_enter hn) w.table.next
    rw [processIn_fresh _ _ _ hnum, processIn_fresh _ _ _ (hsame.trans hnum), hnext]
    exact ⟨hattached.roots, VariableTable.agrees_mark hattached.table (Nat.succ_pos _) _ _⟩
  · rw [processIn_seen _ _ _ hnum, processIn_seen _ _ _ (hsame.trans hnum)]
    exact agrees_attach hvw hn number

end Node

/-! ### The narrow walk in the shadow of the wide one -/

/-- As long as the walks go together, their tables agree, and the narrow queue is the
wide one without children beyond the room of their parents. -/
structure Shadows (base : VariableTable) (limits : WalkLimits) (narrow wide : Walk) : Prop where
  agrees : narrow.Agrees wide
  narrowTime : narrow.budget = .unlimited
  wideTime : wide.budget = .unlimited
  tracks : wide.Tracks base limits
  thinned : Thinned (fun number => limits.maxVariables - number) wide.table.childCount
    wide.queue narrow.queue

section Shadows

variable {base : VariableTable} {h : Heap} {limits : WalkLimits} {narrow wide : Walk}

/-- The narrow walk is over when the wide one is. -/
theorem Shadows.isOver
    (hs : Shadows base limits narrow wide)
    (hover : wide.isOver limits = true) :
    narrow.isOver limits = true := by
  have hsize := hs.agrees.table.size
  have hthinned := hs.thinned
  simp only [Walk.isOver, halted, hs.narrowTime, hs.wideTime, hsize, Bool.or_eq_true] at hover ⊢
  rcases hover with hempty | hhalted
  · rw [List.isEmpty_iff.1 hempty] at hthinned
    exact Or.inl (List.isEmpty_iff.2 hthinned.eq_nil)
  · exact Or.inr hhalted

/-- A step credits the parent of the node it takes. -/
theorem childCount_stepIn
    {room : Room} {n : Node} {rest : List Node} {w : Walk}
    (hw : w.Tracks base limits)
    (hover : w.isOver limits = false)
    (hqueue : w.queue = n :: rest) :
    (w.stepIn room h limits).table.childCount = credit n w.table.childCount := by
  obtain ⟨m, others, hsame, _, _, hstep⟩ := of_not_isOver hover
  obtain ⟨rfl, rfl⟩ := List.cons.inj (hqueue.symm.trans hsame)
  have hbelongs : w.Belongs base n :=
    hw.parents n (by rw [hqueue]; exact List.mem_cons_self)
  rw [hstep]
  exact childCount_processIn room hbelongs

/-- A step of the wide walk either processes a child that the narrow walk left out, or
both walks go on together. -/
theorem shadows_stepIn
    (hover : wide.isOver limits = false)
    (hs : Shadows base limits narrow wide) :
    ¬(wide.stepIn Room.ample h limits).table.Fits base limits ∨
      narrow.isOver limits = false ∧
        Shadows base limits (narrow.stepIn Room.left h limits)
          (wide.stepIn Room.ample h limits) := by
  obtain ⟨n, rest, hqueue, hroom, _, hstep⟩ := of_not_isOver hover
  have hbelongs : wide.Belongs base n :=
    hs.tracks.parents n (by rw [hqueue]; exact List.mem_cons_self)
  have hcount : (wide.stepIn Room.ample h limits).table.childCount =
      credit n wide.table.childCount := childCount_stepIn hs.tracks hover hqueue
  have hthinned := hs.thinned
  rw [hqueue] at hthinned
  generalize hnarrow : narrow.queue = waiting at hthinned
  cases hthinned with
  | drop _ hp hbound _ =>
      -- The count of the parent exceeds its room from now on.
      left
      intro hfits
      have hexceeded := hfits _ (hbelongs _ hp).1
      rw [hcount] at hexceeded
      simp only [credit, hp, if_true] at hexceeded
      omega
  | @keep _ _ _ others hkept =>
      right
      have hsize := hs.agrees.table.size
      have hnarrowOver : narrow.isOver limits = false := by
        simp only [Walk.isOver, halted, hnarrow, hs.narrowTime, hsize, List.isEmpty_cons,
          Budget.exceeded, Bool.or_false, Bool.false_or, decide_eq_false_iff_not]
        omega
      refine ⟨hnarrowOver, ?_⟩
      obtain ⟨m, left, hm, _, _, hnarrowStep⟩ := of_not_isOver hnarrowOver
      obtain ⟨rfl, rfl⟩ := List.cons.inj (hnarrow.symm.trans hm)
      refine ⟨?_, ?_, ?_, tracks_stepIn hover hs.tracks, ?_⟩
      · rw [hstep, hnarrowStep]
        exact agrees_processIn ⟨hs.agrees.roots, hs.agrees.table⟩ hbelongs
      · rw [hnarrowStep, budget_processIn, hs.narrowTime]
        rfl
      · rw [hstep, budget_processIn, hs.wideTime]
        rfl
      · rw [hcount, hstep, hnarrowStep, queue_processIn, queue_processIn]
        refine thinned_append hkept fun later => ?_
        rw [joining_left (v := { narrow with queue := others, budget := narrow.budget.spend })
          (w := { wide with queue := rest, budget := wide.budget.spend }) hs.agrees.table]
        exact thinned_take (fun m hm => parent_joining _ _ _ hm) _ (Nat.le_add_left _ _)

/-- Records do not lose references. -/
theorem not_fits_runIn
    (room : Room)
    {w : Walk}
    (hw : w.Tracks base limits)
    (hfits : ¬w.table.Fits base limits) :
    ¬(w.runIn room h limits).table.Fits base limits := by
  have hstep : ∀ v : Walk, v.isOver limits = false →
      v.Tracks base limits ∧ ¬v.table.Fits base limits →
      (v.stepIn room h limits).Tracks base limits ∧
        ¬(v.stepIn room h limits).table.Fits base limits := by
    rintro v hover ⟨htracks, hv⟩
    refine ⟨tracks_stepIn hover htracks, fun hlater => hv fun number hbase => ?_⟩
    obtain ⟨n, rest, hqueue, _⟩ := of_not_isOver hover
    have hcount := hlater number hbase
    rw [childCount_stepIn htracks hover hqueue] at hcount
    exact (Nat.le_add_right _ _).trans hcount
  exact (runIn_invariant hstep w ⟨hw, hfits⟩).1.2

/-- Where the end of the wide walk fits, the narrow one ends with the same table and references. -/
theorem agrees_runIn
    (hs : Shadows base limits narrow wide)
    (hfits : (wide.runIn Room.ample h limits).table.Fits base limits) :
    (narrow.runIn Room.left h limits).Agrees (wide.runIn Room.ample h limits) := by
  fun_induction runIn Room.ample h limits wide generalizing narrow with
  | case1 wide hover =>
      rw [runIn_of_isOver _ _ _ (hs.isOver hover)]
      exact hs.agrees
  | case2 wide hover ih =>
      have hover : wide.isOver limits = false := by simpa using hover
      rcases shadows_stepIn hover hs with hmissed | ⟨hnarrow, hnext⟩
      · exact absurd hfits (not_fits_runIn _ (tracks_stepIn hover hs.tracks) hmissed)
      · rw [runIn_of_not_isOver _ _ _ hnarrow]
        exact ih hnext hfits

theorem shadows_start
    (bindings : List (String × Ref)) (t : VariableTable) (limits : WalkLimits) :
    Shadows t limits (start bindings t .unlimited) (start bindings t .unlimited) :=
  ⟨⟨rfl, VariableTable.agrees_refl t⟩, rfl, rfl, tracks_start t limits bindings .unlimited,
    thinned_self _ _⟩

end Shadows

/-! ### Children of the narrow walk -/

/-- With the nodes that wait, no record gets more children than there was room. -/
def Spares (base : VariableTable) (limits : WalkLimits) (w : Walk) : Prop :=
  ∀ number, base.size < number →
    w.table.childCount number + w.queue.countP (fun n => n.parent = some number) ≤
      limits.maxVariables - number

section Spares

variable {base : VariableTable} {h : Heap} {limits : WalkLimits} {w : Walk}

theorem length_joining_left
    (w : Walk) (n : Node) :
    (w.joining Room.left h limits n).length ≤ limits.maxVariables - w.table.next := by
  rw [joining_left (VariableTable.agrees_refl w.table), List.length_take]
  exact Nat.min_le_left _ _

/-- A step leaves room for the children it queues. -/
theorem spares_stepIn
    (hover : w.isOver limits = false)
    (htracks : w.Tracks base limits)
    (hw : w.Spares base limits) :
    (w.stepIn Room.left h limits).Spares base limits := by
  obtain ⟨n, rest, hqueue, _, _, hstep⟩ := of_not_isOver hover
  intro number hbase
  rw [childCount_stepIn htracks hover hqueue, hstep, queue_processIn, List.countP_append]
  have hbefore := hw number hbase
  rw [hqueue, List.countP_cons] at hbefore
  simp only [decide_eq_true_eq] at hbefore
  have hjoining : (joining Room.left h limits
      { w with queue := rest, budget := w.budget.spend } n).length ≤
        limits.maxVariables - w.table.next := length_joining_left _ n
  by_cases hnew : number = w.table.next
  · -- No node of a record waits before the record is made.
    have hchildren : w.table.childCount number = 0 :=
      VariableTable.childCount_of_size_lt (by rw [hnew]; exact Nat.lt_succ_self _)
    have hparent : ∀ m ∈ w.queue, m.parent ≠ some number := by
      intro m hm hp
      have hle := (htracks.parents m hm number hp).2
      rw [hnew] at hle
      exact absurd hle (Nat.not_succ_le_self _)
    have hn := hparent n (by rw [hqueue]; exact List.mem_cons_self)
    have hrest : rest.countP (fun m => m.parent = some number) = 0 := by
      rw [List.countP_eq_zero]
      intro m hm
      simpa using hparent m (by rw [hqueue]; exact List.mem_cons_of_mem n hm)
    simp only [credit, if_neg hn, hchildren, hrest]
    have hle := (List.countP_le_length (p := fun m : Node => decide (m.parent = some number))).trans
      hjoining
    rw [← hnew] at hle
    omega
  · have hnone : (joining Room.left h limits
        { w with queue := rest, budget := w.budget.spend } n).countP
          (fun m => m.parent = some number) = 0 := by
      rw [List.countP_eq_zero]
      intro m hm
      rw [parent_joining _ _ _ hm]
      simpa using Ne.symm hnew
    rw [hnone]
    simp only [credit]
    omega

theorem fits_runIn_left
    (htracks : w.Tracks base limits)
    (hw : w.Spares base limits) :
    (w.runIn Room.left h limits).table.Fits base limits := by
  have hstep : ∀ v : Walk, v.isOver limits = false →
      v.Tracks base limits ∧ v.Spares base limits →
      (v.stepIn Room.left h limits).Tracks base limits ∧
        (v.stepIn Room.left h limits).Spares base limits :=
    fun _ hover hv => ⟨tracks_stepIn hover hv.1, spares_stepIn hover hv.1 hv.2⟩
  intro number hbase
  have hspares := (runIn_invariant hstep w ⟨htracks, hw⟩).1.2
  exact (Nat.le_add_right _ _).trans (hspares number hbase)

/-- A walk starts with nothing queued for a record. -/
theorem spares_start
    (bindings : List (String × Ref)) (t : VariableTable) (limits : WalkLimits) (budget : Budget) :
    (start bindings t budget).Spares t limits := by
  intro number hbase
  have hnone : (start bindings t budget).queue.countP (fun n => n.parent = some number) = 0 := by
    rw [List.countP_eq_zero]
    intro n hn
    obtain ⟨b, _, rfl⟩ := List.mem_map.1 hn
    simp [Node.root]
  have hchildren : (start bindings t budget).table.childCount number = 0 :=
    VariableTable.childCount_of_size_lt hbase
  rw [hnone, hchildren]
  exact Nat.zero_le _

end Spares

/-! ### Comparison -/

/-- Reserving room for children that turn out to be shared costs nothing exactly if each record of
the walk without that reserve has no more children than there was room behind it. -/
theorem narrow_agrees_wide_iff
    (h : Heap) (limits : WalkLimits) (bindings : List (String × Ref)) (t : VariableTable) :
    ((start bindings t .unlimited).run h limits).Agrees
        ((start bindings t .unlimited).runIn Room.ample h limits) ↔
      ((start bindings t .unlimited).runIn Room.ample h limits).table.Fits t limits := by
  rw [run_eq_runIn]
  constructor
  · intro hagrees number hbase
    rw [← hagrees.table.childCount]
    exact fits_runIn_left (tracks_start t limits bindings .unlimited)
      (spares_start bindings t limits .unlimited) number hbase
  · exact agrees_runIn (shadows_start bindings t limits)

/-- A dictionary (5) with one value (6) under the keys `a`, `b` and `c`, and another (7)
under the key `e`. -/
def sharedEntries : Heap :=
  ⟨#[.none, .str "a", .str "b", .str "c", .str "e", .dict [(1, 6), (2, 6), (3, 6), (4, 7)],
    .int 1, .int 2]⟩

/-- Up to four variables. -/
def fourVariables : WalkLimits := { WalkLimits.standard with maxVariables := 4 }

/-- A dictionary of four keys with one value shared by three of them loses its last entry. -/
theorem narrow_misses_shared :
    ¬((start [("d", 5)] .empty .unlimited).run sharedEntries fourVariables).Agrees
      ((start [("d", 5)] .empty .unlimited).runIn Room.ample sharedEntries fourVariables) := by
  intro hagrees
  have hsize := hagrees.table.size
  have hnarrow : ((start [("d", 5)] .empty .unlimited).run sharedEntries
      fourVariables).table.size = 2 := by cbv
  have hwide : ((start [("d", 5)] .empty .unlimited).runIn Room.ample sharedEntries
      fourVariables).table.size = 3 := by cbv
  omega

end Walk
end LiveProbe
