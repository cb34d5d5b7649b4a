import Mathlib.Data.List.Permutation
import LiveProbe.Proofs.Variable.Capture
import LiveProbe.Proofs.Variable.Distance

/-!
# Exact captures

What a walk records where the bound on the variables leaves room for everything.

**Specification.**  A table is *exact* for a list of bindings if it has one record for each
value at a distance below the depth of the walk, with just those children that the value
shows, unless the depth ends there (`VariableTable.IsExact`).

**Invariant.**  The depths in the queue do not fall and differ by at most one
(`Walk.IsLevelled`), and what was recorded bears its distance.  The children of a record are
those attached so far and those that still wait in the queue, in this order (`Walk.Serves`,
`Walk.Explores`).

**Results.**
* `Walk.Explores.found`: a value that is reached is recorded, or something no deeper waits.
* `explores_stepIn`: every step keeps the invariant.
* `capture_exact`: with room for all bindings and children, the table of a walk is exact.
-/

namespace LiveProbe

/-- The record without its children. -/
def Variable.unlinked (v : Variable) : Variable := { v with children := #[] }

namespace Heap

variable (h : Heap) (limits : WalkLimits)

/-- The children of the record of a value at a distance. -/
def shownAt (d : Nat) (r : Ref) : List Child :=
  if d + 1 < limits.maxVarDepth then h.shown limits r else []

/-- The record of a value at a distance, apart from its children. -/
def recordAt (d : Nat) (r : Ref) : Variable :=
  let text := truncateChars limits.maxStringLength (h.summary r)
  { typeName := (h.read r).typeName
    value := text.1
    hash := toString r
    children := #[]
    truncated := text.2 || d + 1 < limits.maxVarDepth && h.isShortened limits r }

end Heap

namespace VariableTable

/-- The reference is that of a child, under the id of its value. -/
def Refers (t : VariableTable) (c : Child) (id : VariableId) : Prop :=
  t.idFor? c.value = some id.id ∧ id.name = c.name ∧ id.modifiers = c.modifiers ∧
    id.originalName = c.originalName

/-- The table has one record for each value at a distance below the depth of the walk, and
each is as the distance asks for. -/
structure IsExact (t : VariableTable) (h : Heap) (limits : WalkLimits)
    (bindings : List (String × Ref)) : Prop where
  numbered : t.IsNumbered
  recorded : ∀ r, (t.number? r).isSome ↔
    ∃ d < max 1 limits.maxVarDepth, h.IsDistance limits bindings r d
  record : ∀ r number d, t.number? r = some number → h.IsDistance limits bindings r d →
    ∃ v, t.record? number = some v ∧ v.unlinked = h.recordAt limits d r ∧
      List.Forall₂ t.Refers (h.shownAt limits d r) v.children.toList

end VariableTable

namespace Walk

/-! ### Effects of a step -/

/-- The references that were attached, to the roots or to a record. -/
def references (w : Walk) : Option Nat → List VariableId
  | none => w.roots.toList
  | some number => (w.table.record? number).elim [] fun v => v.children.toList

/-- A node was taken from the queue and attached under a number, and nodes joined for a
record that is new. -/
structure Advances (w : Walk) (n : Node) (rest joined : List Node) (number : Nat) (w' : Walk) :
    Prop where
  queue : w'.queue = rest ++ joined
  joined : ∀ m ∈ joined, m.parent = some w.table.next
  grown : w.table.size ≤ w'.table.size
  number? : ∀ r, w'.table.number? r = if n.child.value = r then some number else w.table.number? r
  keeps : ∀ r m, w.table.number? r = some m → w'.table.number? r = some m
  references : ∀ parent, parent ≠ some w.table.next →
    w'.references parent =
      w.references parent ++ if n.parent = parent then [n.reference number] else []
  record : ∀ m v, w.table.record? m = some v →
    ∃ v', w'.table.record? m = some v' ∧ v'.unlinked = v.unlinked

section Advances

variable {w : Walk} {n : Node}

/-- An attached reference is the last child of its parent. -/
theorem record?_attach
    (hparent : ∀ parent, n.parent = some parent → 0 < parent)
    (number m : Nat) :
    (w.attach n number).table.record? m =
      if n.parent = some m then
        (w.table.record? m).map fun v => { v with children := v.children.push (n.reference number) }
      else w.table.record? m := by
  rcases hn : n.parent with _ | parent
  · rw [table_attach_root hn, if_neg (by simp)]
  · rw [table_attach_child hn, VariableTable.addChild,
      VariableTable.record?_modify _ (hparent parent hn)]
    simp only [Option.some.injEq, eq_comm]

theorem number?_attach
    (number : Nat) (r : Ref) :
    (w.attach n number).table.number? r = w.table.number? r := by
  rcases hn : n.parent with _ | parent
  · rw [table_attach_root hn]
  · rw [table_attach_child hn]
    rfl

theorem unlinked_attach
    (hparent : ∀ parent, n.parent = some parent → 0 < parent)
    (number : Nat)
    {m : Nat} {v : Variable}
    (hv : w.table.record? m = some v) :
    ∃ v', (w.attach n number).table.record? m = some v' ∧ v'.unlinked = v.unlinked := by
  rw [record?_attach hparent, hv]
  split
  · exact ⟨_, rfl, rfl⟩
  · exact ⟨v, rfl, rfl⟩

/-- Where a reference is attached, it is put last. -/
theorem references_attach
    (hparent : ∀ parent, n.parent = some parent → 0 < parent ∧ parent ≤ w.table.size)
    (number : Nat) (parent : Option Nat) :
    (w.attach n number).references parent =
      w.references parent ++ if n.parent = parent then [n.reference number] else [] := by
  cases parent with
  | none =>
      rcases hn : n.parent with _ | parent
      · simp [references, roots_attach_root hn]
      · simp [references, roots_attach_child hn]
  | some m =>
      rw [references, record?_attach fun parent hn => (hparent parent hn).1]
      split
      · next hn =>
          obtain ⟨v, hv⟩ := VariableTable.exists_record?.2 (hparent m hn)
          simp [references, hv]
      · rw [List.append_nil, references]

/-- A value that was recorded before is attached. -/
theorem advances_seen
    {number : Nat}
    (hparent : ∀ parent, n.parent = some parent → 0 < parent ∧ parent ≤ w.table.size)
    (hseen : w.table.number? n.child.value = some number) :
    w.Advances n w.queue [] number (w.attach n number) where
  queue := by rw [queue_attach, List.append_nil]
  joined := by simp
  grown := by rw [size_attach]
  number? := by
    intro r
    rw [number?_attach]
    split
    · next hr => rw [← hr, hseen]
    · rfl
  keeps := fun r m hr => by rw [number?_attach, hr]
  references := fun parent _ => references_attach hparent number parent
  record := fun m v hv => unlinked_attach (fun parent hn => (hparent parent hn).1) number hv

/-- Following marks the record that is followed, and no other. -/
theorem record?_follow
    {number : Nat}
    (hnumber : 0 < number)
    (depth : Nat) (cut : Bool) (children : List Child) (m : Nat) :
    (w.follow number depth cut children).table.record? m =
      if m = number then (w.table.record? m).map fun v => { v with truncated := v.truncated || cut }
      else w.table.record? m := by
  have hsame : (fun v : Variable => { v with truncated := v.truncated }) = id := rfl
  cases cut with
  | true => simp [follow, VariableTable.markTruncated, VariableTable.record?_modify _ hnumber]
  | false => simp [follow, hsame]

theorem number?_follow
    (number depth : Nat) (cut : Bool) (children : List Child) (r : Ref) :
    (w.follow number depth cut children).table.number? r = w.table.number? r := by
  cases cut <;> rfl

/-- Entering records the value under the next number. -/
theorem record?_enter
    (h : Heap) (limits : WalkLimits) (m : Nat) :
    (w.enter h limits n).table.record? m =
      if m = w.table.next then some (recordOf h limits n.child.value) else w.table.record? m :=
  VariableTable.record?_register _ _ _ _

theorem references_enter
    (h : Heap) (limits : WalkLimits)
    {parent : Option Nat}
    (hparent : parent ≠ some w.table.next) :
    (w.enter h limits n).references parent = w.references parent := by
  cases parent with
  | none => rfl
  | some m =>
      rw [references, record?_enter, if_neg (by simpa using hparent), references]

theorem references_follow
    {number : Nat}
    (hnumber : 0 < number)
    (depth : Nat) (cut : Bool) (children : List Child) (parent : Option Nat) :
    (w.follow number depth cut children).references parent = w.references parent := by
  cases parent with
  | none => rfl
  | some m =>
      rw [references, record?_follow hnumber]
      split
      · rw [references]
        cases w.table.record? m <;> rfl
      · rw [references]

/-- A new value is recorded, attached, and its children wait. -/
theorem advances_fresh
    (hparent : ∀ parent, n.parent = some parent → 0 < parent ∧ parent ≤ w.table.size)
    (hfresh : w.table.number? n.child.value = none)
    (h : Heap) (limits : WalkLimits) (cut : Bool) (children : List Child) :
    w.Advances n w.queue (children.map fun c => ⟨c, n.depth + 1, some w.table.next⟩) w.table.next
      (((w.enter h limits n).attach n w.table.next).follow w.table.next (n.depth + 1) cut
        children) := by
  have hnext : 0 < w.table.next := Nat.succ_pos _
  have hentered : ∀ parent, n.parent = some parent →
      0 < parent ∧ parent ≤ (w.enter h limits n).table.size := by
    intro parent hn
    rw [size_enter]
    exact ⟨(hparent parent hn).1, Nat.le_succ_of_le (hparent parent hn).2⟩
  have hnumber : ∀ r, (((w.enter h limits n).attach n w.table.next).follow w.table.next
      (n.depth + 1) cut children).table.number? r =
        if n.child.value = r then some w.table.next else w.table.number? r := by
    intro r
    rw [number?_follow, number?_attach]
    exact VariableTable.number?_register _ _ _ _
  refine ⟨?_, ?_, ?_, hnumber, fun r m hr => ?_, fun parent hne => ?_, fun m v hv => ?_⟩
  · simp only [follow, queue_attach, enter]
  · intro m hm
    obtain ⟨c, _, rfl⟩ := List.mem_map.1 hm
    rfl
  · rw [size_follow, size_attach, size_enter]
    exact Nat.le_succ _
  · have hne : n.child.value ≠ r := by
      rintro rfl
      rw [hfresh] at hr
      cases hr
    rw [hnumber, if_neg hne, hr]
  · rw [references_follow hnext, references_attach hentered, references_enter h limits hne]
  · have hm : m ≠ w.table.next := by
      have hle := VariableTable.le_size_of_record? hv
      unfold VariableTable.next
      unfold VariableTable.size at hle
      omega
    rw [record?_follow hnext, if_neg hm]
    refine unlinked_attach (fun parent hn => (hparent parent hn).1) _ ?_
    rw [record?_enter, if_neg hm, hv]

/-- The new record is without children at first. -/
theorem record?_fresh
    (hparent : ∀ parent, n.parent = some parent → 0 < parent ∧ parent ≤ w.table.size)
    (h : Heap) (limits : WalkLimits) (cut : Bool) (children : List Child) :
    (((w.enter h limits n).attach n w.table.next).follow w.table.next (n.depth + 1) cut
        children).table.record? w.table.next =
      some { recordOf h limits n.child.value with
        truncated := (recordOf h limits n.child.value).truncated || cut } := by
  have hother : n.parent ≠ some w.table.next := by
    intro hn
    have hle := (hparent _ hn).2
    unfold VariableTable.next VariableTable.size at hle
    omega
  have hnext : 0 < w.table.next := Nat.succ_pos _
  rw [record?_follow hnext, if_pos rfl,
    record?_attach fun parent hn => (hparent parent hn).1, if_neg hother, record?_enter, if_pos rfl]
  rfl

end Advances

/-! ### Children that wait -/

/-- Of the children of a parent the first ones are attached and the others wait in the queue
at a depth. -/
def Serves (w : Walk) (parent : Option Nat) (depth : Nat) (children : List Child) : Prop :=
  ∃ done todo, children = done ++ todo ∧
    List.Forall₂ w.table.Refers done (w.references parent) ∧
    (w.queue.filter fun m => m.parent = parent) = todo.map fun c => ⟨c, depth, parent⟩

/-- A record has the content, and its children are served. -/
def Accounts (w : Walk) (number : Nat) (content : Variable) (depth : Nat)
    (children : List Child) : Prop :=
  (∃ v, w.table.record? number = some v ∧ v.unlinked = content) ∧
    w.Serves (some number) depth children

section Serves

variable {w w' : Walk} {n : Node} {rest joined : List Node} {number depth : Nat}
  {parent : Option Nat} {children : List Child}

/-- A child that refers to its record does so further on. -/
theorem Advances.refers
    (hadv : w.Advances n rest joined number w')
    {c : Child} {id : VariableId}
    (hrefers : w.table.Refers c id) :
    w'.table.Refers c id := by
  obtain ⟨hid, hnames⟩ := hrefers
  obtain ⟨m, hm, hid⟩ := Option.map_eq_some_iff.1 hid
  refine ⟨?_, hnames⟩
  rw [VariableTable.idFor?, hadv.keeps _ m hm, Option.map_some, hid]

/-- What a parent has been given, and what is still queued for it, stays its children in order. -/
theorem Serves.advance
    (hserves : w.Serves parent depth children)
    (hqueue : w.queue = n :: rest)
    (hadv : w.Advances n rest joined number w')
    (hparent : parent ≠ some w.table.next) :
    w'.Serves parent depth children := by
  obtain ⟨done, todo, hchildren, hdone, htodo⟩ := hserves
  have hkept : List.Forall₂ w'.table.Refers done (w.references parent) :=
    hdone.imp fun _ _ => hadv.refers
  have hjoined : joined.filter (fun m => m.parent = parent) = [] := by
    refine List.filter_eq_nil_iff.2 fun m hm => ?_
    rw [hadv.joined m hm]
    simpa using Ne.symm hparent
  have hleft : w'.queue.filter (fun m => m.parent = parent) =
      rest.filter fun m => m.parent = parent := by
    rw [hadv.queue, List.filter_append, hjoined, List.append_nil]
  rw [hqueue] at htodo
  by_cases hn : n.parent = parent
  · -- The node is the first of those that wait for this parent.
    rw [List.filter_cons_of_pos (by simpa using hn)] at htodo
    cases todo with
    | nil => cases htodo
    | cons c todo =>
        obtain ⟨hnode, hrest⟩ := List.cons.inj htodo
        refine ⟨done ++ [c], todo, by rw [hchildren, List.append_assoc, List.singleton_append],
          ?_, hleft.trans hrest⟩
        rw [hadv.references parent hparent, if_pos hn]
        refine List.rel_append hkept (.cons ?_ .nil)
        refine ⟨?_, ?_⟩
        · rw [VariableTable.idFor?, hadv.number?, hnode, if_pos rfl]
          rfl
        · rw [hnode]
          exact ⟨rfl, rfl, rfl⟩
  · rw [List.filter_cons_of_neg (by simpa using hn)] at htodo
    refine ⟨done, todo, hchildren, ?_, hleft.trans htodo⟩
    rw [hadv.references parent hparent, if_neg hn, List.append_nil]
    exact hkept

/-- Children that join the queue are served by a record that has none yet. -/
theorem serves_joined
    (hadv : w.Advances n rest (children.map fun c => ⟨c, depth, some w.table.next⟩) number w')
    (hrest : ∀ m ∈ rest, ∀ parent, m.parent = some parent → parent ≤ w.table.size)
    (hnone : w'.references (some w.table.next) = []) :
    w'.Serves (some w.table.next) depth children := by
  refine ⟨[], children, rfl, ?_, ?_⟩
  · rw [hnone]
    exact .nil
  · have hold : rest.filter (fun m => m.parent = some w.table.next) = [] := by
      refine List.filter_eq_nil_iff.2 fun m hm => ?_
      intro hnext
      exact absurd (hrest m hm _ (of_decide_eq_true hnext)) (Nat.not_succ_le_self _)
    have hnew := List.filter_eq_self.2 fun m hm => decide_eq_true (hadv.joined m hm)
    rw [hadv.queue, List.filter_append, hold]
    exact hnew

/-- What is recorded under a number stays so, and its children go on being served. -/
theorem Accounts.advance
    {content : Variable} {m : Nat}
    (haccounts : w.Accounts m content depth children)
    (hqueue : w.queue = n :: rest)
    (hadv : w.Advances n rest joined number w') :
    w'.Accounts m content depth children := by
  obtain ⟨⟨v, hv, hrecord⟩, hserves⟩ := haccounts
  obtain ⟨v', hv', hsame⟩ := hadv.record m v hv
  refine ⟨⟨v', hv', hsame.trans hrecord⟩, hserves.advance hqueue hadv ?_⟩
  have hle := VariableTable.le_size_of_record? hv
  unfold VariableTable.size at hle
  unfold VariableTable.next
  simp only [ne_eq, Option.some.injEq]
  omega

/-- Each child is recorded or waits. -/
theorem Serves.found
    (hserves : w.Serves parent depth children)
    {c : Child}
    (hc : c ∈ children) :
    (w.table.number? c.value).isSome ∨
      ∃ m ∈ w.queue, m.child.value = c.value ∧ m.depth = depth := by
  obtain ⟨done, todo, rfl, hdone, htodo⟩ := hserves
  rcases List.mem_append.1 hc with hold | hnew
  · have hnumbered : List.Forall₂ (fun c id => (w.table.number? c.value).isSome ∧
        w.table.Refers c id) done (w.references parent) := by
      refine hdone.imp fun c id hrefers => ⟨?_, hrefers⟩
      rw [← Option.isSome_map (f := VariableTable.idOf)]
      exact Option.isSome_of_eq_some hrefers.1
    exact Or.inl (((List.forall₂_and_left _ _).1 hnumbered).1 c hold)
  · have hmem : (⟨c, depth, parent⟩ : Node) ∈ w.queue.filter fun m => m.parent = parent := by
      rw [htodo]
      exact List.mem_map_of_mem hnew
    exact Or.inr ⟨_, (List.mem_filter.1 hmem).1, rfl, rfl⟩

/-- At the end of the queue all children are attached. -/
theorem Serves.all
    (hserves : w.Serves parent depth children)
    (hqueue : w.queue = []) :
    List.Forall₂ w.table.Refers children (w.references parent) := by
  obtain ⟨done, todo, rfl, hdone, htodo⟩ := hserves
  rw [hqueue, List.filter_nil, eq_comm, List.map_eq_nil_iff] at htodo
  rw [htodo, List.append_nil]
  exact hdone

end Serves

/-- Queue and budget of the state before have no bearing on it. -/
theorem Advances.of_popped
    {w w' : Walk} {n : Node} {queue rest joined : List Node} {budget : Budget} {number : Nat}
    (hadv : ({ w with queue := queue, budget := budget } : Walk).Advances n rest joined number w') :
    w.Advances n rest joined number w' :=
  ⟨hadv.queue, hadv.joined, hadv.grown, hadv.number?, hadv.keeps, hadv.references, hadv.record⟩

/-! ### The order of depths -/

/-- The depths in the queue do not fall and differ by at most one. -/
def IsLevelled (w : Walk) : Prop :=
  w.queue.Pairwise fun m n => m.depth ≤ n.depth ∧ n.depth ≤ m.depth + 1

theorem isLevelled_start
    (bindings : List (String × Ref)) (t : VariableTable) (budget : Budget) :
    (start bindings t budget).IsLevelled := by
  refine List.pairwise_of_forall_mem_list fun m hm n hn => ?_
  obtain ⟨b, _, rfl⟩ := List.mem_map.1 hm
  obtain ⟨c, _, rfl⟩ := List.mem_map.1 hn
  exact ⟨le_rfl, Nat.zero_le _⟩

/-- What joins the queue is one deeper than the front, and may stand behind all that waits. -/
theorem Advances.isLevelled
    {w w' : Walk} {n : Node} {rest joined : List Node} {number : Nat}
    (hadv : w.Advances n rest joined number w')
    (hqueue : w.queue = n :: rest)
    (hdeeper : ∀ m ∈ joined, m.depth = n.depth + 1)
    (hw : w.IsLevelled) :
    w'.IsLevelled := by
  rw [IsLevelled, hqueue] at hw
  obtain ⟨hfront, hrest⟩ := List.pairwise_cons.1 hw
  rw [IsLevelled, hadv.queue]
  refine List.pairwise_append.2 ⟨hrest, ?_, fun m hm m' hm' => ?_⟩
  · refine List.pairwise_of_forall_mem_list fun m hm m' hm' => ?_
    have := hdeeper m hm
    have := hdeeper m' hm'
    omega
  · have := hfront m hm
    have := hdeeper m' hm'
    omega

/-! ### Exploration -/

/-- The number of children that are shown by values that are not recorded yet. -/
noncomputable def unrecorded (w : Walk) (h : Heap) (limits : WalkLimits)
    (bindings : List (String × Ref)) : Nat :=
  h.slotsOf limits bindings fun r => w.table.number? r = none

/-- The value is recorded as its distance asks for, and its children are served. -/
def Describes (w : Walk) (h : Heap) (limits : WalkLimits) (r : Ref) (number d : Nat) : Prop :=
  (∃ v, w.table.record? number = some v ∧ v.unlinked = h.recordAt limits d r) ∧
    w.Serves (some number) (d + 1) (h.shownAt limits d r)

/-- The walk has room for all that is to come, waits for values in the order of their
depths, and recorded values with their distances. -/
structure Explores (h : Heap) (limits : WalkLimits) (bindings : List (String × Ref)) (w : Walk) :
    Prop where
  budget : w.budget = .unlimited
  room : w.table.size + w.queue.length + w.unrecorded h limits bindings ≤ limits.maxVariables
  levelled : w.IsLevelled
  reached : ∀ n ∈ w.queue,
    h.Reaches limits bindings n.depth n.child.value ∧ n.depth < max 1 limits.maxVarDepth
  parents : ∀ n ∈ w.queue, ∀ parent, n.parent = some parent → 0 < parent ∧ parent ≤ w.table.size
  roots : w.Serves none 0 (bindings.map fun b => .plain b.1 b.2)
  described : ∀ r number, w.table.number? r = some number →
    ∃ d < max 1 limits.maxVarDepth, h.IsDistance limits bindings r d ∧
      w.Describes h limits r number d

section Explores

variable {h : Heap} {limits : WalkLimits} {bindings : List (String × Ref)} {w w' : Walk}
  {n : Node} {rest joined : List Node} {number : Nat}

/-- A value that is reached is recorded, or something no deeper waits. -/
theorem Explores.found
    (hw : w.Explores h limits bindings)
    {k : Nat} {r : Ref}
    (hr : h.Reaches limits bindings k r)
    (hk : k < max 1 limits.maxVarDepth) :
    (w.table.number? r).isSome ∨ ∃ m ∈ w.queue, m.depth ≤ k := by
  induction hr with
  | @root b hb =>
      have hmem : Child.plain b.1 b.2 ∈ bindings.map fun b => Child.plain b.1 b.2 :=
        List.mem_map_of_mem hb
      rcases hw.roots.found hmem with hold | ⟨m, hm, _, hdepth⟩
      · exact Or.inl hold
      · exact Or.inr ⟨m, hm, hdepth.le⟩
  | @child k r c hr hc ih =>
      rcases ih (by omega) with hold | ⟨m, hm, hdepth⟩
      · obtain ⟨number, hnumber⟩ := Option.isSome_iff_exists.1 hold
        obtain ⟨d, _, hdistance, _, hserves⟩ := hw.described r number hnumber
        have hle : d ≤ k := hdistance.2 hr
        have hshown : c ∈ h.shownAt limits d r := by
          rw [Heap.shownAt, if_pos (by omega)]
          exact hc
        rcases hserves.found hshown with hold | ⟨m, hm, _, hdepth⟩
        · exact Or.inl hold
        · exact Or.inr ⟨m, hm, by omega⟩
      · exact Or.inr ⟨m, hm, by omega⟩

/-- What comes to the front for the first time, does so at its distance. -/
theorem Explores.isDistance_front
    (hw : w.Explores h limits bindings)
    (hqueue : w.queue = n :: rest)
    (hfresh : w.table.number? n.child.value = none) :
    h.IsDistance limits bindings n.child.value n.depth := by
  have hfront : n ∈ w.queue := by
    rw [hqueue]
    exact List.mem_cons_self
  obtain ⟨hreached, hdepth⟩ := hw.reached n hfront
  refine ⟨hreached, fun k hk => ?_⟩
  by_contra hlt
  rcases hw.found hk (by omega) with hold | ⟨m, hm, hmdepth⟩
  · rw [hfresh] at hold
    cases hold
  · have hlevelled := hw.levelled
    rw [IsLevelled, hqueue] at hlevelled
    rw [hqueue] at hm
    rcases List.mem_cons.1 hm with rfl | hlater
    · omega
    · have := (List.pairwise_cons.1 hlevelled).1 m hlater
      omega

theorem Describes.advance
    {r : Ref} {m d : Nat}
    (hdescribes : w.Describes h limits r m d)
    (hqueue : w.queue = n :: rest)
    (hadv : w.Advances n rest joined number w') :
    w'.Describes h limits r m d :=
  Accounts.advance hdescribes hqueue hadv

/-- What a step has to keep beside what all steps keep. -/
theorem Explores.advance
    (hw : w.Explores h limits bindings)
    (hqueue : w.queue = n :: rest)
    (hadv : w.Advances n rest joined number w')
    (hbudget : w'.budget = .unlimited)
    (hroom : w'.table.size + w'.queue.length + w'.unrecorded h limits bindings ≤
        limits.maxVariables)
    (hjoined : ∀ m ∈ joined, m.depth = n.depth + 1 ∧ n.depth + 1 < limits.maxVarDepth ∧
        h.Reaches limits bindings (n.depth + 1) m.child.value ∧ w.table.next ≤ w'.table.size)
    (hnew : ∃ d < max 1 limits.maxVarDepth, h.IsDistance limits bindings n.child.value d ∧
        w'.Describes h limits n.child.value number d) :
    w'.Explores h limits bindings := by
  obtain ⟨-, -, hlevelled, hreached, hparents, hroots, hdescribed⟩ := hw
  rw [hqueue] at hreached hparents
  refine ⟨hbudget, hroom, hadv.isLevelled hqueue (fun m hm => (hjoined m hm).1) hlevelled, ?_, ?_,
    hroots.advance hqueue hadv (by simp), ?_⟩
  · intro m hm
    rw [hadv.queue] at hm
    rcases List.mem_append.1 hm with hold | hnew
    · exact hreached m (List.mem_cons_of_mem n hold)
    · obtain ⟨hdepth, hlt, hchild, _⟩ := hjoined m hnew
      rw [hdepth]
      exact ⟨hchild, by omega⟩
  · intro m hm parent hparent
    rw [hadv.queue] at hm
    rcases List.mem_append.1 hm with hold | hnew
    · obtain ⟨hpos, hle⟩ := hparents m (List.mem_cons_of_mem n hold) parent hparent
      exact ⟨hpos, hle.trans hadv.grown⟩
    · rw [hadv.joined m hnew] at hparent
      rw [← Option.some.inj hparent]
      exact ⟨Nat.succ_pos _, (hjoined m hnew).2.2.2⟩
  · intro r m hr
    rw [hadv.number?] at hr
    split at hr
    · next hsame =>
        rw [← Option.some.inj hr, ← hsame]
        exact hnew
    · obtain ⟨d, hd, hdistance, hdescribes⟩ := hdescribed r m hr
      exact ⟨d, hd, hdistance, hdescribes.advance hqueue hadv⟩

/-- With room for the children that a value shows, those are followed. -/
theorem followed_left_eq
    {t : VariableTable}
    (hroom : (h.shown limits n.child.value).length ≤ limits.maxVariables - t.size) :
    followed Room.left h limits t n = h.shownAt limits n.depth n.child.value ∧
      isCut Room.left h limits t n =
        (n.depth + 1 < limits.maxVarDepth && h.isShortened limits n.child.value) := by
  refine ⟨?_, ?_⟩
  · unfold followed Heap.shownAt Room.left
    rw [Heap.childrenUpTo_childCap hroom]
  · unfold isCut Room.left
    congr 1
    rw [Bool.eq_iff_iff, decide_eq_true_iff]
    exact Heap.childCap_lt_iff_of_le hroom

/-- A value met again leaves the exploration as it is, but for the reference to it. -/
theorem Explores.stepIn_seen
    (hw : w.Explores h limits bindings)
    (hqueue : w.queue = n :: rest)
    (hseen : w.table.number? n.child.value = some number) :
    (({ w with queue := rest, budget := w.budget.spend } : Walk).attach n number).Explores h limits
      bindings := by
  have hparent := hw.parents n (by rw [hqueue]; exact List.mem_cons_self)
  have hadv : w.Advances n rest [] number _ := Advances.of_popped
    (advances_seen (w := { w with queue := rest, budget := w.budget.spend }) hparent hseen)
  refine hw.advance hqueue hadv ?_ ?_ (by simp) ?_
  · rw [budget_attach]
    exact congrArg Budget.spend hw.budget
  · have hroom := hw.room
    rw [hqueue, List.length_cons] at hroom
    have hsame : (({ w with queue := rest, budget := w.budget.spend } : Walk).attach n
        number).unrecorded h limits bindings = w.unrecorded h limits bindings := by
      simp only [unrecorded, number?_attach]
    rw [size_attach, queue_attach, hsame]
    dsimp only
    omega
  · obtain ⟨d, hd, hdistance, hdescribes⟩ := hw.described n.child.value number hseen
    exact ⟨d, hd, hdistance, hdescribes.advance hqueue hadv⟩

/-- A new value takes the places for its children from those that are to come. -/
theorem Explores.room_of_fresh
    (hw : w.Explores h limits bindings)
    (hqueue : w.queue = n :: rest)
    (hfresh : w.table.number? n.child.value = none)
    (hnumber : ∀ r, w'.table.number? r =
        if n.child.value = r then some number else w.table.number? r) :
    w.table.size + 1 + rest.length + (h.shown limits n.child.value).length +
      w'.unrecorded h limits bindings ≤ limits.maxVariables := by
  have hroom := hw.room
  have hreached := (hw.reached n (by rw [hqueue]; exact List.mem_cons_self)).1
  have hunrecorded : ∀ r, w'.table.number? r = none ↔
      w.table.number? r = none ∧ r ≠ n.child.value := by
    intro r
    rw [hnumber]
    split
    · next hr => simp [hr]
    · next hr => simp [Ne.symm hr]
  have hsum := Heap.slotsOf_erase hreached (p := fun r => w.table.number? r = none) hfresh
    hunrecorded
  rw [hqueue, List.length_cons] at hroom
  unfold unrecorded at hroom ⊢
  omega

/-- A value met first is recorded, and its children join behind all of its level. -/
theorem Explores.stepIn_fresh
    (hw : w.Explores h limits bindings)
    (hqueue : w.queue = n :: rest)
    (hfresh : w.table.number? n.child.value = none) :
    (({ w with queue := rest, budget := w.budget.spend } : Walk).processIn Room.left h limits
      n).Explores h limits bindings := by
  have hfront : n ∈ w.queue := by
    rw [hqueue]
    exact List.mem_cons_self
  have hparent := hw.parents n hfront
  obtain ⟨hreached, hdepth⟩ := hw.reached n hfront
  -- The state once the node is taken, and once its value is recorded and attached.
  let popped : Walk := { w with queue := rest, budget := w.budget.spend }
  let attached := (popped.enter h limits n).attach n w.table.next
  have hsize : attached.table.size = w.table.size + 1 := by
    rw [size_attach, size_enter]
  have hnumber : ∀ r, attached.table.number? r =
      if n.child.value = r then some w.table.next else w.table.number? r := by
    intro r
    rw [number?_attach]
    exact VariableTable.number?_register _ _ _ _
  have hplaces := hw.room_of_fresh hqueue hfresh hnumber
  have hspace : (h.shown limits n.child.value).length ≤
      limits.maxVariables - attached.table.size := by
    rw [hsize]
    omega
  obtain ⟨hfollowed, hcut⟩ := followed_left_eq hspace
  have hprocessed : popped.processIn Room.left h limits n =
      attached.follow w.table.next (n.depth + 1)
        (n.depth + 1 < limits.maxVarDepth && h.isShortened limits n.child.value)
        (h.shownAt limits n.depth n.child.value) := by
    rw [processIn_fresh Room.left h limits (w := popped) hfresh]
    rw [← hfollowed, ← hcut]
  rw [hprocessed]
  have hadv := Advances.of_popped (w := w) (advances_fresh (w := popped) hparent hfresh h limits
    (n.depth + 1 < limits.maxVarDepth && h.isShortened limits n.child.value)
    (h.shownAt limits n.depth n.child.value))
  have hrecord := record?_fresh (w := popped) hparent h limits
    (n.depth + 1 < limits.maxVarDepth && h.isShortened limits n.child.value)
    (h.shownAt limits n.depth n.child.value)
  refine hw.advance hqueue hadv ?_ ?_ ?_
    ⟨n.depth, hdepth, hw.isDistance_front hqueue hfresh, ⟨_, hrecord, rfl⟩,
      serves_joined (w := w) hadv ?_ ?_⟩
  · refine (budget_attach w.table.next).trans ?_
    exact congrArg Budget.spend hw.budget
  · have hunrecorded : ∀ cut children, (attached.follow w.table.next (n.depth + 1) cut
        children).unrecorded h limits bindings = attached.unrecorded h limits bindings := by
      intro cut children
      simp only [unrecorded, number?_follow]
    have hlength : (h.shownAt limits n.depth n.child.value).length ≤
        (h.shown limits n.child.value).length := by
      unfold Heap.shownAt
      split
      · exact le_rfl
      · exact Nat.zero_le _
    have hroom : attached.table.size + (rest.length +
        (h.shownAt limits n.depth n.child.value).length) + attached.unrecorded h limits bindings ≤
          limits.maxVariables := by
      rw [hsize]
      omega
    rw [hadv.queue, size_follow, hunrecorded, List.length_append, List.length_map]
    exact hroom
  · intro m hm
    obtain ⟨c, hc, rfl⟩ := List.mem_map.1 hm
    unfold Heap.shownAt at hc
    split at hc
    · next hlt =>
        refine ⟨rfl, hlt, .child hreached hc, ?_⟩
        rw [size_follow]
        exact hsize.ge
    · cases hc
  · intro m hm parent hm'
    exact (hw.parents m (by rw [hqueue]; exact List.mem_cons_of_mem n hm) parent hm').2
  · rw [references, hrecord]
    rfl

/-- Every step keeps the invariant. -/
theorem explores_stepIn
    (hover : w.isOver limits = false)
    (hw : w.Explores h limits bindings) :
    (w.stepIn Room.left h limits).Explores h limits bindings := by
  obtain ⟨n, rest, hqueue, _, _, hstep⟩ := of_not_isOver hover
  rw [hstep Room.left h]
  rcases hnumber : w.table.number? n.child.value with _ | number
  · exact hw.stepIn_fresh hqueue hnumber
  · rw [processIn_seen Room.left h limits
      (w := { w with queue := rest, budget := w.budget.spend }) hnumber]
    exact hw.stepIn_seen hqueue hnumber

/-- A walk with room ends with its queue. -/
theorem Explores.queue_eq_nil
    (hw : w.Explores h limits bindings)
    (hover : w.isOver limits = true) :
    w.queue = [] := by
  have hroom := hw.room
  simp only [isOver, halted, hw.budget, Budget.exceeded, Bool.or_false, Bool.or_eq_true,
    List.isEmpty_iff, decide_eq_true_eq] at hover
  rcases hover with hempty | hfull
  · exact hempty
  · exact List.eq_nil_of_length_eq_zero (by omega)

/-- With room for all slots, a walk starts as an exploration. -/
theorem explores_start
    (hroom : bindings.length + h.slots limits bindings ≤ limits.maxVariables) :
    (start bindings .empty .unlimited).Explores h limits bindings where
  budget := rfl
  room := by
    have hslots : (start bindings .empty .unlimited).unrecorded h limits bindings =
        h.slots limits bindings := by
      simp only [unrecorded, start, VariableTable.number?_empty, Heap.slots]
    rw [hslots]
    simpa [start] using hroom
  levelled := isLevelled_start bindings .empty .unlimited
  reached := by
    intro n hn
    obtain ⟨b, hb, rfl⟩ := List.mem_map.1 hn
    exact ⟨.root hb, Nat.lt_of_lt_of_le Nat.zero_lt_one (le_max_left _ _)⟩
  parents := by
    intro n hn parent hparent
    obtain ⟨b, _, rfl⟩ := List.mem_map.1 hn
    cases hparent
  roots := by
    refine ⟨[], _, rfl, .nil, ?_⟩
    rw [List.map_map]
    refine List.filter_eq_self.2 fun n hn => ?_
    obtain ⟨b, _, rfl⟩ := List.mem_map.1 hn
    rfl
  described := by
    intro r number hr
    rw [start, VariableTable.number?_empty] at hr
    cases hr

/-- An exploration with an empty queue has captured everything within reach. -/
theorem Explores.isExact
    (hw : w.Explores h limits bindings)
    (hqueue : w.queue = [])
    (hnumbered : w.table.IsNumbered) :
    w.table.IsExact h limits bindings where
  numbered := hnumbered
  recorded := by
    intro r
    constructor
    · intro hr
      obtain ⟨number, hnumber⟩ := Option.isSome_iff_exists.1 hr
      obtain ⟨d, hd, hdistance, _⟩ := hw.described r number hnumber
      exact ⟨d, hd, hdistance⟩
    · rintro ⟨d, hd, hdistance⟩
      rcases hw.found hdistance.1 hd with hold | ⟨m, hm, _⟩
      · exact hold
      · rw [hqueue] at hm
        cases hm
  record := by
    intro r number d hr hdistance
    obtain ⟨d', _, hdistance', ⟨v, hv, hrecord⟩, hserves⟩ := hw.described r number hr
    obtain rfl : d' = d := hdistance'.unique hdistance
    refine ⟨v, hv, hrecord, ?_⟩
    have hall := hserves.all hqueue
    rw [references, hv] at hall
    exact hall

end Explores

/-! ### Captures -/

/-- With room for the bindings and all slots, and without a limit of time, a capture holds exactly
the values at distances below the depth of the walk, each recorded as its distance asks for, and
it refers to the bindings in order. -/
theorem capture_exact
    (h : Heap) (limits : WalkLimits) (bindings : List (String × Ref))
    (hroom : bindings.length + h.slots limits bindings ≤ limits.maxVariables) :
    let captured := walkAll h limits bindings .empty .unlimited
    captured.2.1.IsExact h limits bindings ∧
      List.Forall₂ captured.2.1.Refers (bindings.map fun b => .plain b.1 b.2) captured.1 := by
  have hsound := isSound_run VariableTable.isNumbered_empty VariableTable.isClosed_empty h limits
    bindings .unlimited
  have hlast := runIn_invariant (fun w hover hw => explores_stepIn hover hw) _
    (explores_start hroom)
  rw [← run_eq_runIn] at hlast
  obtain ⟨hexplores, hover⟩ := hlast
  have hqueue := hexplores.queue_eq_nil hover
  exact ⟨hexplores.isExact hqueue hsound.numbered, hexplores.roots.all hqueue⟩

/-- A list (1) of itself, a dictionary (2), a second list (3) and a number.  The dictionary
leads to both lists, and the second list to the dictionary. -/
def entangled : Heap :=
  ⟨#[.none, .list [1, 2, 3, 4], .dict [(5, 1), (5, 3)], .list [2], .int 7, .str "k"]⟩

/-- Two levels, of lists up to three items, and as many variables as may be needed. -/
def twoLevels : WalkLimits :=
  { WalkLimits.standard with maxVarDepth := 2, maxVariables := 8, maxCollectionSize := 3 }

/-- The first list shows three of its items and is recorded first; the dictionary is recorded
at distance one, where the walk does not go on. -/
theorem capture_exact_entangled :
    let bindings := [("a", 1), ("b", 3)]
    let captured := walkAll entangled twoLevels bindings .empty .unlimited
    bindings.length + entangled.slots twoLevels bindings ≤ twoLevels.maxVariables ∧
      captured.2.1.records.toList.map
          (fun v => (v.hash, v.children.toList.map VariableId.id, v.truncated)) =
        [("1", ["1", "3", "2"], true), ("3", ["3"], false), ("2", [], false)] ∧
      captured.2.1.IsExact entangled twoLevels bindings := by
  intro bindings captured
  have hroom : bindings.length + entangled.slots twoLevels bindings ≤ twoLevels.maxVariables := by
    have hslots : entangled.slots twoLevels bindings ≤ 6 :=
      (Heap.slotsOf_le_sum bindings _).trans (by decide)
    exact Nat.add_le_add_left hslots 2
  refine ⟨hroom, ?_, (capture_exact entangled twoLevels bindings hroom).1⟩
  cbv

end Walk
end LiveProbe
