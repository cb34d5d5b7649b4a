import LiveProbe.Proofs.Variable.Walking

/-!
# Captures

Sequences of walks over one lookup table, as a capture makes them.

**Capture.**  A capture begins with an empty table.  Its walks come one after
another, each over the values as they then are and with bounds, bindings and time
of its own; between two walks the observed program may change its values in any
way.

**Invariants.**  In the course of a walk nodes that wait belong to records of this
walk, records of earlier walks stay as they were, and the bound on the variables
is kept (`Walk.Tracks`).  A grounded table stays so, and knows every root and all that
the records of this walk refer to (`Walk.Resolves`).  A table that was numbered and
closed stays so, too (`Walk.IsSound`).

**Results.**
* `tracks_runIn`, `resolves_runIn`, `isSound_runIn`: a walk keeps the invariants,
  whatever its room.
* `reached_runIn`: the roots carry the names of the first bindings.
* `capture_consistent`: after each walk of a capture, table and references fit
  together.
-/

namespace LiveProbe
namespace Walk

/-- Where a walk stands that began with the table `base`. -/
structure Tracks (base : VariableTable) (limits : WalkLimits) (w : Walk) : Prop where
  /-- Nodes that wait belong to records of this walk. -/
  parents : ∀ n ∈ w.queue, ∀ parent, n.parent = some parent →
    base.size < parent ∧ parent ≤ w.table.size
  kept : ∀ number v, base.record? number = some v → w.table.record? number = some v
  grown : base.size ≤ w.table.size
  bounded : w.table.size ≤ max base.size limits.maxVariables

/-- The roots, and the references of all records behind the first `count`, lead to
records. -/
structure Resolves (count : Nat) (w : Walk) : Prop where
  grounded : w.table.IsGrounded
  closed : w.table.IsClosedFrom count
  roots : ∀ root ∈ w.roots, w.table.Knows root.id

/-- Numbers, records and references of a walk belong together. -/
structure IsSound (w : Walk) : Prop where
  numbered : w.table.IsNumbered
  closed : w.table.IsClosed
  roots : ∀ root ∈ w.roots, w.table.Knows root.id

/-- The node is a root or belongs to a record that the walk made. -/
def Belongs (base : VariableTable) (w : Walk) (n : Node) : Prop :=
  ∀ parent, n.parent = some parent → base.size < parent ∧ parent ≤ w.table.size

section Steps

variable {base : VariableTable} {h : Heap} {limits : WalkLimits} {w : Walk} {n : Node}
  {count : Nat}

/-! ### Attaching -/

/-- Attaching a reference keeps the walk on the table it started from. -/
theorem tracks_attach
    (hw : w.Tracks base limits)
    (hn : w.Belongs base n)
    (number : Nat) :
    (w.attach n number).Tracks base limits := by
  have hsize := size_attach w n number
  refine ⟨?_, ?_, by rw [hsize]; exact hw.grown, by rw [hsize]; exact hw.bounded⟩
  · rw [queue_attach, hsize]
    exact hw.parents
  · intro k v hv
    rcases hp : n.parent with _ | parent
    · rw [table_attach_root hp]
      exact hw.kept k v hv
    · obtain ⟨hbase, hle⟩ := hn parent hp
      have hk := VariableTable.le_size_of_record? hv
      rw [table_attach_child hp, VariableTable.addChild,
        VariableTable.record?_modify_of_ne _ (by omega) _ (by omega)]
      exact hw.kept k v hv

theorem resolves_attach
    {number : Nat}
    (hw : w.Resolves count)
    (hn : w.Belongs base n)
    (hnumber : w.table.Knows (VariableTable.idOf number)) :
    (w.attach n number).Resolves count := by
  rcases hp : n.parent with _ | parent
  · have htable := table_attach_root hp number (w := w)
    refine ⟨htable ▸ hw.grounded, htable ▸ hw.closed, ?_⟩
    rw [htable, roots_attach_root hp]
    intro root hroot
    rcases Array.mem_push.1 hroot with hold | rfl
    · exact hw.roots root hold
    · exact hnumber
  · obtain ⟨hbase, _⟩ := hn parent hp
    have hpos : 0 < parent := by omega
    have htable := table_attach_child hp number (w := w)
    refine ⟨?_, ?_, ?_⟩
    · rw [htable]
      exact VariableTable.isGrounded_modify hw.grounded parent _
    · rw [htable]
      exact VariableTable.isClosedFrom_addChild hw.closed hpos hnumber
    · rw [roots_attach_child hp]
      intro root hroot
      exact (hw.roots root hroot).mono (by simp)

theorem isNumbered_attach
    (hw : w.table.IsNumbered)
    (hn : w.Belongs base n)
    (number : Nat) :
    (w.attach n number).table.IsNumbered := by
  rcases hp : n.parent with _ | parent
  · rw [table_attach_root hp]
    exact hw
  · obtain ⟨hbase, _⟩ := hn parent hp
    rw [table_attach_child hp]
    exact VariableTable.isNumbered_addChild hw (by omega) _

/-! ### Recording -/

theorem tracks_enter
    (hw : w.Tracks base limits)
    (hroom : w.table.size < limits.maxVariables) :
    (w.enter h limits n).Tracks base limits := by
  have hsize := size_enter h limits w n
  have hgrown := hw.grown
  refine ⟨?_, ?_, by omega, by omega⟩
  · intro m hm parent hp
    have := hw.parents m hm parent hp
    omega
  · intro k v hv
    have hk := VariableTable.le_size_of_record? hv
    rw [enter, VariableTable.record?_register, if_neg (by omega)]
    exact hw.kept k v hv

theorem resolves_enter
    (hw : w.Resolves count) :
    (w.enter h limits n).Resolves count := by
  have hsize := size_enter h limits w n
  refine ⟨VariableTable.isGrounded_register hw.grounded _ _,
    VariableTable.isClosedFrom_register hw.closed _ rfl, ?_⟩
  intro root hroot
  exact (hw.roots root hroot).mono (by omega)

/-! ### Queueing children -/

/-- The children that join the queue belong to the record just made. -/
theorem tracks_follow
    (hw : w.Tracks base limits)
    {number : Nat}
    (hbase : base.size < number)
    (hle : number ≤ w.table.size)
    (depth : Nat) (cut : Bool) (children : List Child) :
    (w.follow number depth cut children).Tracks base limits := by
  have hsize := size_follow w number depth cut children
  refine ⟨?_, ?_, by rw [hsize]; exact hw.grown, by rw [hsize]; exact hw.bounded⟩
  · intro m hm parent hp
    rw [hsize]
    rcases List.mem_append.1 hm with hold | hnew
    · exact hw.parents m hold parent hp
    · obtain ⟨c, _, rfl⟩ := List.mem_map.1 hnew
      rw [← Option.some.inj hp]
      exact ⟨hbase, hle⟩
  · intro k v hv
    have hk := VariableTable.le_size_of_record? hv
    cases cut with
    | false => exact hw.kept k v hv
    | true =>
        rw [follow, if_pos rfl, VariableTable.markTruncated,
          VariableTable.record?_modify_of_ne _ (by omega) _ (by omega)]
        exact hw.kept k v hv

theorem resolves_follow
    {number : Nat}
    (hw : w.Resolves count)
    (hpos : 0 < number)
    (depth : Nat) (cut : Bool) (children : List Child) :
    (w.follow number depth cut children).Resolves count := by
  cases cut with
  | false => exact ⟨hw.grounded, hw.closed, hw.roots⟩
  | true =>
      refine ⟨VariableTable.isGrounded_modify hw.grounded _ _,
        VariableTable.isClosedFrom_markTruncated hw.closed hpos, ?_⟩
      intro root hroot
      exact (hw.roots root hroot).mono (by simp [follow])

theorem isNumbered_follow
    {number : Nat}
    (hw : w.table.IsNumbered)
    (hpos : 0 < number)
    (depth : Nat) (cut : Bool) (children : List Child) :
    (w.follow number depth cut children).table.IsNumbered := by
  cases cut with
  | false => exact hw
  | true => exact VariableTable.isNumbered_markTruncated hw hpos

/-! ### Steps and runs -/

theorem belongs_enter
    (hn : w.Belongs base n) :
    (w.enter h limits n).Belongs base n := by
  intro parent hp
  have := hn parent hp
  rw [size_enter]
  omega

/-- Processing a node keeps the walk on the table it started from. -/
theorem tracks_processIn
    {room : Room}
    (hw : w.Tracks base limits)
    (hn : w.Belongs base n)
    (hroom : w.table.size < limits.maxVariables) :
    (w.processIn room h limits n).Tracks base limits := by
  rcases hnum : w.table.number? n.child.value with _ | number
  · rw [processIn_fresh room h limits hnum]
    have hentered : (w.enter h limits n).Tracks base limits := tracks_enter hw hroom
    refine tracks_follow (tracks_attach hentered (belongs_enter hn) _) ?_ ?_ _ _ _
    · exact Nat.lt_succ_of_le hw.grown
    · rw [size_attach, size_enter]
      exact Nat.le_refl _
  · rw [processIn_seen room h limits hnum]
    exact tracks_attach hw hn number

theorem resolves_processIn
    {room : Room}
    (hw : w.Resolves count)
    (hn : w.Belongs base n) :
    (w.processIn room h limits n).Resolves count := by
  rcases hnum : w.table.number? n.child.value with _ | number
  · rw [processIn_fresh room h limits hnum]
    have hentered : (w.enter h limits n).Resolves count := resolves_enter hw
    have hknows : (w.enter h limits n).table.Knows (VariableTable.idOf w.table.next) :=
      ⟨w.table.next, Nat.succ_pos _, by rw [size_enter]; exact Nat.le_refl _, rfl⟩
    exact resolves_follow (resolves_attach hentered (belongs_enter hn) hknows) (Nat.succ_pos _)
      _ _ _
  · rw [processIn_seen room h limits hnum]
    exact resolves_attach hw hn (hw.grounded _ _ hnum)

theorem isNumbered_processIn
    {room : Room}
    (hw : w.table.IsNumbered)
    (hn : w.Belongs base n) :
    (w.processIn room h limits n).table.IsNumbered := by
  rcases hnum : w.table.number? n.child.value with _ | number
  · rw [processIn_fresh room h limits hnum]
    have hentered : (w.enter h limits n).table.IsNumbered :=
      VariableTable.isNumbered_register hw hnum rfl
    exact isNumbered_follow (isNumbered_attach hentered (belongs_enter hn) _) (Nat.succ_pos _) _ _ _
  · rw [processIn_seen room h limits hnum]
    exact isNumbered_attach hw hn number

theorem belongs_front
    {rest : List Node}
    (hw : w.Tracks base limits)
    (hqueue : w.queue = n :: rest) :
    w.Belongs base n :=
  hw.parents n (by rw [hqueue]; exact List.mem_cons_self)

/-- One step keeps the walk on the table it started from. -/
theorem tracks_stepIn
    {room : Room}
    (hover : w.isOver limits = false)
    (hw : w.Tracks base limits) :
    (w.stepIn room h limits).Tracks base limits := by
  obtain ⟨n, rest, hqueue, hroom, _, hstep⟩ := of_not_isOver hover
  have hbelongs : w.Belongs base n := belongs_front hw hqueue
  rw [hstep]
  refine tracks_processIn ⟨?_, hw.kept, hw.grown, hw.bounded⟩ hbelongs hroom
  intro m hm
  exact hw.parents m (by rw [hqueue]; exact List.mem_cons_of_mem n hm)

theorem resolves_stepIn
    {room : Room}
    (hover : w.isOver limits = false)
    (htracks : w.Tracks base limits)
    (hw : w.Resolves count) :
    (w.stepIn room h limits).Resolves count := by
  obtain ⟨n, rest, hqueue, _, _, hstep⟩ := of_not_isOver hover
  have hbelongs : w.Belongs base n := belongs_front htracks hqueue
  rw [hstep]
  exact resolves_processIn ⟨hw.grounded, hw.closed, hw.roots⟩ hbelongs

theorem isNumbered_stepIn
    {room : Room}
    (hover : w.isOver limits = false)
    (htracks : w.Tracks base limits)
    (hw : w.table.IsNumbered) :
    (w.stepIn room h limits).table.IsNumbered := by
  obtain ⟨n, rest, hqueue, _, _, hstep⟩ := of_not_isOver hover
  have hbelongs : w.Belongs base n := belongs_front htracks hqueue
  rw [hstep]
  exact isNumbered_processIn hw hbelongs

theorem tracks_start
    (t : VariableTable) (limits : WalkLimits) (bindings : List (String × Ref)) (budget : Budget) :
    (start bindings t budget).Tracks t limits := by
  refine ⟨?_, fun _ _ hv => hv, Nat.le_refl _, Nat.le_max_left _ _⟩
  intro n hn parent hp
  obtain ⟨b, _, rfl⟩ := List.mem_map.1 hn
  simp [Node.root] at hp

theorem tracks_runIn
    (room : Room)
    (hw : w.Tracks base limits) :
    (w.runIn room h limits).Tracks base limits :=
  (runIn_invariant (fun _ => tracks_stepIn) w hw).1

theorem resolves_runIn
    (room : Room)
    (htracks : w.Tracks base limits)
    (hw : w.Resolves count) :
    (w.runIn room h limits).Resolves count := by
  have hstep : ∀ v : Walk, v.isOver limits = false → v.Tracks base limits ∧ v.Resolves count →
      (v.stepIn room h limits).Tracks base limits ∧ (v.stepIn room h limits).Resolves count :=
    fun _ hover hv => ⟨tracks_stepIn hover hv.1, resolves_stepIn hover hv.1 hv.2⟩
  exact (runIn_invariant hstep w ⟨htracks, hw⟩).1.2

theorem isSound_runIn
    (room : Room)
    (htracks : w.Tracks base limits)
    (hw : w.IsSound) :
    (w.runIn room h limits).IsSound := by
  have hstep : ∀ v : Walk, v.isOver limits = false → v.Tracks base limits ∧ v.table.IsNumbered →
      (v.stepIn room h limits).Tracks base limits ∧ (v.stepIn room h limits).table.IsNumbered :=
    fun _ hover hv => ⟨tracks_stepIn hover hv.1, isNumbered_stepIn hover hv.1 hv.2⟩
  have hresolves : (w.runIn room h limits).Resolves 0 :=
    resolves_runIn room htracks
      ⟨hw.numbered.isGrounded, VariableTable.isClosed_iff.mp hw.closed, hw.roots⟩
  exact ⟨(runIn_invariant hstep w ⟨htracks, hw.numbered⟩).1.2,
    VariableTable.isClosed_iff.mpr hresolves.closed, hresolves.roots⟩

end Steps

/-! ### The walk of a capture -/

theorem tracks_run
    (h : Heap) (limits : WalkLimits) (bindings : List (String × Ref)) (t : VariableTable)
    (budget : Budget) :
    ((start bindings t budget).run h limits).Tracks t limits := by
  rw [run_eq_runIn]
  exact tracks_runIn _ (tracks_start t limits bindings budget)

/-- The references that are new since the start resolve at the end. -/
theorem resolves_run
    {t : VariableTable} {count : Nat}
    (hgrounded : t.IsGrounded)
    (hclosed : t.IsClosedFrom count)
    (h : Heap) (limits : WalkLimits) (bindings : List (String × Ref)) (budget : Budget) :
    ((start bindings t budget).run h limits).Resolves count := by
  rw [run_eq_runIn]
  refine resolves_runIn _ (tracks_start t limits bindings budget) ⟨hgrounded, hclosed, ?_⟩
  intro root hroot
  simp [start] at hroot

theorem isSound_run
    {t : VariableTable}
    (hnumbered : t.IsNumbered)
    (hclosed : t.IsClosed)
    (h : Heap) (limits : WalkLimits) (bindings : List (String × Ref)) (budget : Budget) :
    ((start bindings t budget).run h limits).IsSound := by
  rw [run_eq_runIn]
  refine isSound_runIn _ (tracks_start t limits bindings budget) ⟨hnumbered, hclosed, ?_⟩
  intro root hroot
  simp [start] at hroot

/-! ### Names of roots -/

/-- The first bindings have their references, in order; the others wait in front of
everything deeper. -/
def Reached (bindings : List (String × Ref)) (w : Walk) : Prop :=
  ∃ done todo deeper, bindings = done ++ todo ∧
    w.roots.toList.map VariableId.name = done.map Prod.fst ∧
    w.queue = (todo.map fun b => Node.root b.1 b.2) ++ deeper ∧
    ∀ n ∈ deeper, n.parent ≠ none

/-- A node without a parent adds one reference of its own. -/
theorem roots_processIn_root
    (room : Room) (h : Heap) (limits : WalkLimits) (w : Walk)
    {n : Node}
    (hn : n.parent = none) :
    ∃ number, (w.processIn room h limits n).roots = w.roots.push (n.reference number) := by
  rcases hnum : w.table.number? n.child.value with _ | number
  · rw [processIn_fresh room h limits hnum]
    exact ⟨w.table.next, roots_attach_root hn _⟩
  · rw [processIn_seen room h limits hnum]
    exact ⟨number, roots_attach_root hn _⟩

theorem roots_processIn_child
    (room : Room) (h : Heap) (limits : WalkLimits) (w : Walk)
    {n : Node}
    (hn : n.parent ≠ none) :
    (w.processIn room h limits n).roots = w.roots := by
  obtain ⟨parent, hp⟩ := Option.ne_none_iff_exists'.1 hn
  rcases hnum : w.table.number? n.child.value with _ | number
  · rw [processIn_fresh room h limits hnum]
    exact roots_attach_child hp _
  · rw [processIn_seen room h limits hnum]
    exact roots_attach_child hp _

/-- A step takes the next binding, or a child behind all of them. -/
theorem reached_stepIn
    {bindings : List (String × Ref)} {room : Room} {h : Heap} {limits : WalkLimits} {w : Walk}
    (hover : w.isOver limits = false)
    (hw : w.Reached bindings) :
    (w.stepIn room h limits).Reached bindings := by
  obtain ⟨n, rest, hqueue, _, _, hstep⟩ := of_not_isOver hover
  obtain ⟨done, todo, deeper, hsplit, hnames, hwaiting, hdeeper⟩ := hw
  have hmore := queue_processIn room h limits
    { w with queue := rest, budget := w.budget.spend } n
  have hchild : ∀ m ∈ joining room h limits
      { w with queue := rest, budget := w.budget.spend } n, m.parent ≠ none := by
    intro m hm
    rw [parent_joining room h limits hm]
    exact Option.some_ne_none _
  generalize joining room h limits { w with queue := rest, budget := w.budget.spend } n = more
    at hmore hchild
  rw [hqueue] at hwaiting
  rw [hstep]
  cases todo with
  | nil =>
      rw [List.map_nil, List.nil_append] at hwaiting
      subst hwaiting
      refine ⟨done, [], rest ++ more, hsplit, ?_, hmore, ?_⟩
      · rw [roots_processIn_child room h limits _ (hdeeper n List.mem_cons_self)]
        exact hnames
      · intro m hm
        rcases List.mem_append.1 hm with hold | hnew
        · exact hdeeper m (List.mem_cons_of_mem n hold)
        · exact hchild m hnew
  | cons b todo =>
      simp only [List.map_cons, List.cons_append, List.cons.injEq] at hwaiting
      obtain ⟨rfl, rfl⟩ := hwaiting
      refine ⟨done ++ [b], todo, deeper ++ more, by rw [hsplit]; simp, ?_, ?_, ?_⟩
      · obtain ⟨number, hroots⟩ := roots_processIn_root room h limits
          { w with queue := _, budget := w.budget.spend } (n := Node.root b.1 b.2) rfl
        rw [hroots, Array.toList_push, List.map_append, List.map_append, hnames]
        rfl
      · rw [hmore, List.append_assoc]
      · intro m hm
        rcases List.mem_append.1 hm with hold | hnew
        · exact hdeeper m hold
        · exact hchild m hnew

/-- A walk takes the bindings in order, from the first. -/
theorem reached_runIn
    (room : Room) (h : Heap) (limits : WalkLimits) (bindings : List (String × Ref))
    (t : VariableTable) (budget : Budget) :
    ((start bindings t budget).runIn room h limits).Reached bindings := by
  have hstart : (start bindings t budget).Reached bindings :=
    ⟨[], bindings, [], rfl, rfl, by simp [start], by simp⟩
  exact (runIn_invariant (fun _ => reached_stepIn) _ hstart).1

/-- The references have the names of the bindings taken. -/
theorem Reached.names
    {bindings : List (String × Ref)} {w : Walk}
    (hw : w.Reached bindings) :
    w.roots.toList.map VariableId.name = (bindings.map Prod.fst).take w.roots.size := by
  obtain ⟨done, todo, _, rfl, hnames, _⟩ := hw
  have hlength : w.roots.size = done.length := by
    simpa using congrArg List.length hnames
  rw [hnames, hlength, List.map_append, List.take_left' (by simp)]

/-- The roots that are reached carry the names of the first bindings, in order. -/
theorem names_run
    (h : Heap) (limits : WalkLimits) (bindings : List (String × Ref)) (t : VariableTable)
    (budget : Budget) :
    ((start bindings t budget).run h limits).roots.toList.map VariableId.name =
      (bindings.map Prod.fst).take ((start bindings t budget).run h limits).roots.size := by
  rw [run_eq_runIn]
  exact (reached_runIn Room.left h limits bindings t budget).names

/-- A walk that ends with room and time left has reached all roots. -/
theorem names_run_of_not_halted
    {h : Heap} {limits : WalkLimits} {bindings : List (String × Ref)} {t : VariableTable}
    {budget : Budget}
    (hend : ((start bindings t budget).run h limits).halted limits = false) :
    ((start bindings t budget).run h limits).roots.toList.map VariableId.name =
      bindings.map Prod.fst := by
  rw [run_eq_runIn] at hend ⊢
  have hover : ((start bindings t budget).runIn Room.left h limits).isOver limits = true :=
    (runIn_invariant (fun _ => tracks_stepIn) _ (tracks_start t limits bindings budget)).2
  obtain ⟨done, todo, deeper, hsplit, hnames, hqueue, -⟩ :=
    reached_runIn Room.left h limits bindings t budget
  rw [isOver, hend, Bool.or_false, List.isEmpty_iff, hqueue] at hover
  obtain ⟨htodo, -⟩ := List.append_eq_nil_iff.mp hover
  obtain rfl := List.map_eq_nil_iff.mp htodo
  rw [hnames, hsplit, List.append_nil]

end Walk

/-! ### Sequences of walks -/

/-- What a walk starts from: several bindings, or a single one. -/
inductive WalkTarget
  | all (bindings : List (String × Ref))
  | one (name : String) (value : Ref)

/-- The bindings in the order in which they are walked. -/
def WalkTarget.bindings : WalkTarget → List (String × Ref)
  | all bindings => bindings
  | one name value => [(name, value)]

/-- One walk of a capture, with the values as they are at its time. -/
structure CaptureWalk where
  heap : Heap
  limits : WalkLimits
  target : WalkTarget
  budget : Budget

/-- The references that a walk returns, and the table after it. -/
def CaptureWalk.run (w : CaptureWalk) (t : VariableTable) : List VariableId × VariableTable :=
  match w.target with
  | .all bindings =>
      let (roots, table, _) := walkAll w.heap w.limits bindings t w.budget
      (roots, table)
  | .one name value =>
      let (root, table, _) := walkOne w.heap w.limits name value t w.budget
      (root.toList, table)

/-- A lookup table, with all references to roots that were returned so far. -/
structure Captured where
  table : VariableTable
  roots : List VariableId

namespace Captured

/-- Before the first walk. -/
def begin : Captured := ⟨.empty, []⟩

/-- After one further walk. -/
def after (c : Captured) (w : CaptureWalk) : Captured :=
  ⟨(w.run c.table).2, c.roots ++ (w.run c.table).1⟩

/-- After walks in their order. -/
def ofWalks (walks : List CaptureWalk) : Captured := walks.foldl after begin

/-- The keys of the lookup table. -/
def keys (c : Captured) : List String := c.table.lookup.map Prod.fst

/-- Table and references fit together. -/
structure IsSound (c : Captured) : Prop where
  numbered : c.table.IsNumbered
  closed : c.table.IsClosed
  roots : ∀ root ∈ c.roots, c.table.Knows root.id

/-- A walk for a capture is a run from its bindings. -/
theorem run_eq
    (w : CaptureWalk) (t : VariableTable) :
    w.run t =
      (((Walk.start w.target.bindings t w.budget).run w.heap w.limits).roots.toList,
        ((Walk.start w.target.bindings t w.budget).run w.heap w.limits).table) := by
  rcases htarget : w.target with bindings | ⟨name, value⟩
  · simp only [CaptureWalk.run, htarget, WalkTarget.bindings, walkAll]
  · have hone := Walk.names_run w.heap w.limits [(name, value)] t w.budget
    simp only [CaptureWalk.run, htarget, WalkTarget.bindings, walkOne, Prod.mk.injEq, and_true]
    -- A single binding has at most one root, so the first root is all of them.
    generalize ((Walk.start [(name, value)] t w.budget).run w.heap w.limits).roots = roots at hone
    have hsize : roots.size ≤ 1 := by
      have := congrArg List.length hone
      simp only [List.length_map, List.length_take, Array.length_toList] at this
      simp only [List.length_cons, List.length_nil] at this
      omega
    rcases roots with ⟨_ | ⟨root, _ | ⟨other, rest⟩⟩⟩
    · rfl
    · rfl
    · simp at hsize

theorem isSound_begin : begin.IsSound :=
  ⟨VariableTable.isNumbered_empty, VariableTable.isClosed_empty, by simp [begin]⟩

theorem isSound_after
    {c : Captured}
    (hc : c.IsSound)
    (w : CaptureWalk) :
    (c.after w).IsSound := by
  have htracks := Walk.tracks_run w.heap w.limits w.target.bindings c.table w.budget
  have hsound := Walk.isSound_run hc.numbered hc.closed w.heap w.limits w.target.bindings w.budget
  rw [after, run_eq]
  refine ⟨hsound.numbered, hsound.closed, fun root hroot => ?_⟩
  rcases List.mem_append.1 hroot with hold | hnew
  · exact (hc.roots root hold).mono htracks.grown
  · exact hsound.roots root (by simpa using hnew)

theorem isSound_ofWalks
    (walks : List CaptureWalk) :
    (ofWalks walks).IsSound := by
  have hfold : ∀ (walks : List CaptureWalk) (c : Captured), c.IsSound →
      (walks.foldl after c).IsSound := by
    intro walks
    induction walks with
    | nil => exact fun c hc => hc
    | cons w rest ih => exact fun c hc => ih _ (isSound_after hc w)
  exact hfold walks begin isSound_begin

/-- What earlier walks recorded stays in the lookup table as it is. -/
theorem mem_lookup_after
    (c : Captured) (w : CaptureWalk)
    {e : String × Variable}
    (he : e ∈ c.table.lookup) :
    e ∈ (c.after w).table.lookup := by
  have htracks := Walk.tracks_run w.heap w.limits w.target.bindings c.table w.budget
  obtain ⟨number, hrecord, hid⟩ := VariableTable.mem_lookup_iff.1 he
  rw [after, run_eq]
  have hlater := htracks.kept number e.2 hrecord
  rw [VariableTable.mem_lookup_iff]
  exact ⟨number, hlater, hid⟩

/-- After any walks of one capture, each with its own heap, limits and budget, a further walk
leaves a table in which identifiers run from one without gaps, each value has one of them, and
every child resolves. The references it returns resolve too and bear the names of a prefix of its
bindings, nothing recorded earlier is lost, and no record goes beyond the limit of variables. -/
theorem capture_consistent
    (earlier : List CaptureWalk) (w : CaptureWalk) :
    let before := ofWalks earlier
    let returned := (w.run before.table).1
    let now := ofWalks (earlier ++ [w])
    now.keys = (List.range' 1 now.table.size).map toString ∧
      Set.BijOn now.table.idFor? now.table.identities (some '' {id | id ∈ now.keys}) ∧
      (∀ r, (now.table.idFor? r).isSome ↔ r ∈ now.table.identities) ∧
      now.roots = before.roots ++ returned ∧
      (∀ root ∈ now.roots, root.id ∈ now.keys) ∧
      (∀ e ∈ now.table.lookup, ∀ child ∈ e.2.children, child.id ∈ now.keys) ∧
      (∀ e ∈ before.table.lookup, e ∈ now.table.lookup) ∧
      returned.map VariableId.name =
        (w.target.bindings.map Prod.fst).take returned.length ∧
      now.table.size ≤ max before.table.size w.limits.maxVariables := by
  intro before returned now
  have hbefore : before.IsSound := isSound_ofWalks earlier
  have hnow : now = before.after w := by
    simp only [now, before, ofWalks, List.foldl_append, List.foldl_cons, List.foldl_nil]
  have hsound : now.IsSound := hnow ▸ isSound_after hbefore w
  have hkey : ∀ id, id ∈ now.keys ↔ now.table.Knows id := fun id =>
    VariableTable.mem_keys_lookup_iff
  refine ⟨VariableTable.keys_lookup _, ?_, VariableTable.isSome_idFor?_iff hsound.numbered, ?_,
    ?_, ?_, ?_, ?_, ?_⟩
  · simp only [hkey]
    exact VariableTable.bijOn_idFor? hsound.numbered
  · rw [hnow]
    rfl
  · intro root hroot
    exact (hkey _).2 (hsound.roots root hroot)
  · intro e he child hchild
    obtain ⟨number, hrecord, _⟩ := VariableTable.mem_lookup_iff.1 he
    exact (hkey _).2 (hsound.closed number e.2 hrecord child hchild)
  · rw [hnow]
    exact fun e he => mem_lookup_after before w he
  · have hnames := Walk.names_run w.heap w.limits w.target.bindings before.table w.budget
    simp only [returned, run_eq, Array.length_toList]
    exact hnames
  · rw [hnow, after, run_eq]
    exact (Walk.tracks_run ..).bounded

end Captured
end LiveProbe
