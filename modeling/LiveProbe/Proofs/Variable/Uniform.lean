import LiveProbe.Frame.Stack
import LiveProbe.Proofs.Value.Comparing

/-!
# Walks do not look at identities

On alike heaps a capture makes the same records, apart from the identities on which
the values were recognised.

**Specification.**  Two tables are alike (`VariableTable.Alike`) if their records agree
in all but the identity and if paired values have one number. Two walks are alike
(`Walk.Alike`) if beside their tables their queues are paired node by node, and they
agree in all else.

**Results.**
* `Walk.Alike.run`: alike walks have alike ends, by induction on the steps.
* `VariableTable.Alike.grow`: tables stay alike when the heaps are alike in more pairs.
* `Stack.collect_alike`: a stack is collected with the same records of its frames.
-/

namespace LiveProbe

variable {R : Ref → Ref → Prop} {h g : Heap}

/-- The record without the identity of its value. -/
def Variable.unhashed (v : Variable) : Variable := { v with hash := "" }

namespace VariableTable

/-- Records that agree in all but the identity, and one number for paired values. -/
structure Alike (R : Ref → Ref → Prop) (t t' : VariableTable) : Prop where
  records : t.records.map Variable.unhashed = t'.records.map Variable.unhashed
  number_eq : ∀ {x y}, R x y → t.number? x = t'.number? y
  left : ∀ {x k}, t.number? x = some k → ∃ y, R x y
  right : ∀ {y k}, t'.number? y = some k → ∃ x, R x y

namespace Alike

variable {t t' : VariableTable}

theorem empty : Alike R .empty .empty where
  records := rfl
  number_eq _ := by simp [VariableTable.empty, number?]
  left := by simp [VariableTable.empty, number?]
  right := by simp [VariableTable.empty, number?]

theorem size_eq
    (ht : Alike R t t') :
    t.size = t'.size := by
  have hsize := congrArg Array.size ht.records
  rwa [Array.size_map, Array.size_map] at hsize

/-- A value outside all pairs has no number on either side. -/
theorem grow
    {S : Ref → Ref → Prop}
    (ht : Alike R t t')
    (hRS : ∀ x y, R x y → S x y) (ha : Heap.Alike S h g) :
    Alike S t t' where
  records := ht.records
  number_eq {x y} hxy := by
    cases hx : t.number? x with
    | some k =>
        obtain ⟨y', hy'⟩ := ht.left hx
        rw [(ha.eq_iff hxy (hRS _ _ hy')).1 rfl, ← ht.number_eq hy', hx]
    | none =>
        cases hy : t'.number? y with
        | none => rfl
        | some k =>
            obtain ⟨x', hx'⟩ := ht.right hy
            rw [(ha.eq_iff hxy (hRS _ _ hx')).2 rfl, ht.number_eq hx', hy] at hx
            cases hx
  left hx := (ht.left hx).imp fun _ => hRS _ _
  right hy := (ht.right hy).imp fun _ => hRS _ _

/-- Paired values get the same number, under any identity. -/
theorem register
    {x y : Ref} {v w : Variable}
    (ht : Alike R t t')
    (ha : Heap.Alike R h g)
    (hxy : R x y)
    (hvw : v.unhashed = w.unhashed) :
    Alike R (t.register x v) (t'.register y w) where
  records := by
    simp only [VariableTable.register, Array.map_push, ht.records, hvw]
  number_eq {x' y'} hxy' := by
    have hnumber := ht.number_eq hxy'
    have hsize := ht.size_eq
    simp only [number?, size] at hnumber hsize
    simp only [VariableTable.register, number?, next, Std.HashMap.getElem?_insert, beq_iff_eq,
      ha.eq_iff hxy hxy', hnumber, hsize]
  left {x' k} hx' := by
    simp only [VariableTable.register, number?, Std.HashMap.getElem?_insert, beq_iff_eq] at hx'
    split at hx'
    · next heq => exact ⟨y, heq ▸ hxy⟩
    · exact ht.left hx'
  right {y' k} hy' := by
    simp only [VariableTable.register, number?, Std.HashMap.getElem?_insert, beq_iff_eq] at hy'
    split at hy'
    · next heq => exact ⟨x, heq ▸ hxy⟩
    · exact ht.right hy'

/-- A change that is blind to identities commutes with forgetting them. -/
theorem map_modify
    {f : Variable → Variable}
    (records : Array Variable) (i : Nat)
    (hf : ∀ v, (f v).unhashed = f v.unhashed) :
    (records.modify i f).map Variable.unhashed = (records.map Variable.unhashed).modify i f := by
  refine Array.ext_getElem? fun j => ?_
  rw [Array.getElem?_map, Array.getElem?_modify, Array.getElem?_modify, Array.getElem?_map]
  split
  · rw [Option.map_map, Option.map_map]
    exact congrArg (Option.map · _) (funext hf)
  · rfl

theorem modify
    {f : Variable → Variable}
    (ht : Alike R t t')
    (number : Nat)
    (hf : ∀ v, (f v).unhashed = f v.unhashed) :
    Alike R (t.modify number f) (t'.modify number f) where
  records := by
    rw [VariableTable.modify, VariableTable.modify, map_modify _ _ hf, map_modify _ _ hf,
      ht.records]
  number_eq := ht.number_eq
  left := ht.left
  right := ht.right

theorem addChild
    (ht : Alike R t t')
    (parent : Nat) (child : VariableId) :
    Alike R (t.addChild parent child) (t'.addChild parent child) :=
  ht.modify parent fun _ => rfl

theorem markTruncated
    (ht : Alike R t t')
    (number : Nat) :
    Alike R (t.markTruncated number) (t'.markTruncated number) :=
  ht.modify number fun _ => rfl

end Alike
end VariableTable

/-! ### Children -/

/-- The same name and modifiers, and paired values. -/
def Child.Alike (R : Ref → Ref → Prop) (c c' : Child) : Prop :=
  R c.value c'.value ∧ { c with value := c'.value } = c'

theorem ofField_alike
    {x y : Ref}
    (typeName field : String)
    (hxy : R x y) :
    (Child.ofField typeName field x).Alike R (Child.ofField typeName field y) := by
  unfold Child.ofField
  dsimp only
  split
  · exact ⟨hxy, rfl⟩
  · split
    · exact ⟨hxy, rfl⟩
    · split
      · exact ⟨hxy, rfl⟩
      · exact ⟨hxy, rfl⟩

namespace Heap.Alike

theorem summary_eq
    {x y : Ref}
    (ha : Heap.Alike R h g)
    (hxy : R x y) :
    h.summary x = g.summary y := by
  have hread := ha.read hxy
  unfold summary
  simp only [hread.kind_eq, hread.length?_eq, hread.typeName_eq, ha.display_eq hxy]

theorem childCount_eq
    {x y : Ref}
    (ha : Heap.Alike R h g)
    (hxy : R x y) :
    h.childCount x = g.childCount y := by
  have hread := ha.read hxy
  unfold childCount
  generalize h.read x = v at hread ⊢
  generalize g.read y = w at hread ⊢
  cases hread with
  | list hitems | tuple hitems | set hitems | exception _ hitems => exact hitems.length_eq
  | dict hentries => exact hentries.length_eq
  | object _ _ hfields => exact hfields.length_eq
  | _ => rfl

theorem indexed_alike
    {items items' : List Ref}
    (h : List.Forall₂ R items items') :
    List.Forall₂ (Child.Alike R) (Child.indexed items) (Child.indexed items') := by
  unfold Child.indexed
  generalize 0 = first
  induction h generalizing first with
  | nil => exact .nil
  | cons hitem _ ih => exact .cons ⟨hitem, rfl⟩ (ih (first + 1))

theorem childrenUpTo_alike
    {x y : Ref}
    (ha : Heap.Alike R h g) (cap : Nat)
    (hxy : R x y) :
    List.Forall₂ (Child.Alike R) (h.childrenUpTo cap x) (g.childrenUpTo cap y) := by
  have hread := ha.read hxy
  unfold childrenUpTo
  generalize h.read x = v at hread ⊢
  generalize g.read y = w at hread ⊢
  cases hread with
  | list hitems | tuple hitems | set hitems | exception _ hitems =>
      exact indexed_alike (List.forall₂_take cap hitems)
  | dict hentries =>
      rw [List.forall₂_map_left_iff, List.forall₂_map_right_iff]
      refine (List.forall₂_take cap hentries).imp fun e e' he => ⟨he.2, ?_⟩
      rw [Child.plain, Child.plain, ha.display_eq he.1]
  | object typeName _ hfields =>
      rw [List.forall₂_map_left_iff, List.forall₂_map_right_iff]
      refine (List.forall₂_take cap hfields).imp fun f f' hf => ?_
      rw [hf.1]
      exact ofField_alike typeName f'.1 hf.2
  | _ => exact .nil

end Heap.Alike

/-! ### Walks -/

/-- Alike children at one place of the walk. -/
def Node.Alike (R : Ref → Ref → Prop) (n n' : Node) : Prop :=
  n.child.Alike R n'.child ∧ n.depth = n'.depth ∧ n.parent = n'.parent

theorem Node.Alike.reference_eq
    {n n' : Node}
    (hn : n.Alike R n')
    (number : Nat) :
    n.reference number = n'.reference number := by
  obtain ⟨⟨_, hchild⟩, _, _⟩ := hn
  rw [reference, reference, ← hchild]

namespace Walk

/-- Walks that agree in all but identities. -/
structure Alike (R : Ref → Ref → Prop) (w w' : Walk) : Prop where
  queue : List.Forall₂ (Node.Alike R) w.queue w'.queue
  table : w.table.Alike R w'.table
  roots : w.roots = w'.roots
  budget : w.budget = w'.budget

variable {w w' : Walk} {n n' : Node}

theorem recordOf_unhashed_eq
    {x y : Ref}
    (ha : Heap.Alike R h g) (limits : WalkLimits)
    (hxy : R x y) :
    (recordOf h limits x).unhashed = (recordOf g limits y).unhashed := by
  simp only [recordOf, Variable.unhashed, ha.summary_eq hxy, (ha.read hxy).typeName_eq]

namespace Alike

theorem attach
    (hw : Alike R w w')
    (hn : n.Alike R n')
    (number : Nat) :
    Alike R (w.attach n number) (w'.attach n' number) := by
  unfold Walk.attach
  rw [← hn.2.2, hn.reference_eq number]
  cases n.parent with
  | none => exact { hw with roots := by rw [hw.roots] }
  | some parent => exact { hw with table := hw.table.addChild parent _ }

theorem enqueue
    {children children' : List Child}
    (hw : Alike R w w')
    (hchildren : List.Forall₂ (Child.Alike R) children children') (depth number : Nat) :
    Alike R { w with queue := w.queue ++ children.map fun c => ⟨c, depth, some number⟩ }
      { w' with queue := w'.queue ++ children'.map fun c => ⟨c, depth, some number⟩ } where
  queue := by
    refine List.rel_append hw.queue ?_
    rw [List.forall₂_map_left_iff, List.forall₂_map_right_iff]
    exact hchildren.imp fun _ _ hc => ⟨hc, rfl, rfl⟩
  table := hw.table
  roots := hw.roots
  budget := hw.budget

theorem expand
    {limits : WalkLimits}
    (ha : Heap.Alike R h g)
    (hw : Alike R w w')
    (hn : n.Alike R n')
    (room number : Nat) :
    Alike R (w.expand h limits room n number) (w'.expand g limits room n' number) := by
  obtain ⟨⟨hvalue, _⟩, hdepth, _⟩ := hn
  unfold Walk.expand
  rw [(ha.read hvalue).kind_eq, ha.childCount_eq hvalue, ← hdepth]
  dsimp only
  generalize Heap.childCap limits room (g.read n'.child.value).kind = cap
  have hmarked : Alike R
      (if cap < g.childCount n'.child.value then { w with table := w.table.markTruncated number }
        else w)
      (if cap < g.childCount n'.child.value then { w' with table := w'.table.markTruncated number }
        else w') := by
    split
    · exact { hw with table := hw.table.markTruncated number }
    · exact hw
  have hchildren := ha.childrenUpTo_alike cap hvalue
  generalize h.childrenUpTo cap n.child.value = children at hchildren ⊢
  generalize g.childrenUpTo cap n'.child.value = children' at hchildren ⊢
  cases hchildren with
  | nil => exact hmarked
  | cons hc hrest => exact hmarked.enqueue (.cons hc hrest) (n.depth + 1) number

theorem process
    {limits : WalkLimits}
    (ha : Heap.Alike R h g)
    (hw : Alike R w w')
    (hn : n.Alike R n') :
    Alike R (w.process h limits n) (w'.process g limits n') := by
  obtain ⟨⟨hvalue, _⟩, hdepth, _⟩ := id hn
  unfold Walk.process
  rw [← hw.table.number_eq hvalue]
  cases w.table.number? n.child.value with
  | some number =>
      exact hw.attach hn number
  | none =>
      have hnext : w.table.next = w'.table.next := congrArg (· + 1) hw.table.size_eq
      have hrecorded : Alike R
          { w with table := w.table.register n.child.value (recordOf h limits n.child.value) }
          { w' with
            table := w'.table.register n'.child.value (recordOf g limits n'.child.value) } :=
        { hw with table := hw.table.register ha hvalue (recordOf_unhashed_eq ha limits hvalue) }
      have hattached := hrecorded.attach hn w.table.next
      dsimp only
      rw [← hnext, ← hdepth, ← hattached.table.size_eq]
      split
      · exact hattached.expand ha hn _ _
      · exact hattached

theorem halted_eq
    (hw : Alike R w w')
    (limits : WalkLimits) :
    w.halted limits = w'.halted limits := by
  rw [halted, halted, hw.table.size_eq, hw.budget]

theorem step
    {limits : WalkLimits}
    (ha : Heap.Alike R h g)
    (hw : Alike R w w') :
    Alike R (w.step h limits) (w'.step g limits) := by
  obtain ⟨queue, table, roots, budget⟩ := w
  obtain ⟨queue', table', roots', budget'⟩ := w'
  obtain ⟨hqueue, htable, hroots, hbudget⟩ := hw
  cases hqueue with
  | nil =>
      exact ⟨.nil, htable, hroots, hbudget⟩
  | cons hn hrest =>
      refine process ha ⟨hrest, htable, hroots, ?_⟩ hn
      exact congrArg Budget.spend hbudget

theorem isOver_eq
    (hw : Alike R w w')
    (limits : WalkLimits) :
    w.isOver limits = w'.isOver limits := by
  have hempty : w.queue.isEmpty = w'.queue.isEmpty := by
    rw [Bool.eq_iff_iff, List.isEmpty_iff_length_eq_zero, List.isEmpty_iff_length_eq_zero,
      hw.queue.length_eq]
  rw [isOver, isOver, hempty, hw.halted_eq limits]

/-- Alike walks have alike ends. -/
theorem run
    (hw : Alike R w w')
    (ha : Heap.Alike R h g) (limits : WalkLimits) :
    Alike R (w.run h limits) (w'.run g limits) := by
  fun_induction Walk.run h limits w generalizing w' with
  | case1 w hover =>
      rw [Walk.run, if_pos (hw.isOver_eq limits ▸ hover)]
      exact hw
  | case2 w hover ih =>
      have hrun : w'.run g limits = (w'.step g limits).run g limits := by
        rw [Walk.run, if_neg (hw.isOver_eq limits ▸ hover)]
      rw [hrun]
      exact ih (hw.step ha)

theorem start
    {bindings bindings' : List (String × Ref)} {table table' : VariableTable}
    (hbindings : List.Forall₂ (Value.FieldAlike R) bindings bindings')
    (htable : table.Alike R table')
    (budget : Budget) :
    Alike R (Walk.start bindings table budget) (Walk.start bindings' table' budget) where
  queue := by
    unfold Walk.start
    rw [List.forall₂_map_left_iff, List.forall₂_map_right_iff]
    refine hbindings.imp fun b b' hb => ⟨⟨hb.2, ?_⟩, rfl, rfl⟩
    rw [Node.root, Node.root, Child.plain, Child.plain, hb.1]
  table := htable
  roots := rfl
  budget := rfl

end Alike
end Walk

/-- What two walks give that agree in all but identities. -/
structure WalkedAlike {α : Type} (R : Ref → Ref → Prop) (p p' : α × VariableTable × Budget) :
    Prop where
  answer : p.1 = p'.1
  table : p.2.1.Alike R p'.2.1
  budget : p.2.2 = p'.2.2

theorem walkAll_alike
    {bindings bindings' : List (String × Ref)} {table table' : VariableTable}
    (ha : Heap.Alike R h g) (limits : WalkLimits)
    (hbindings : List.Forall₂ (Value.FieldAlike R) bindings bindings')
    (htable : table.Alike R table')
    (budget : Budget) :
    WalkedAlike R (walkAll h limits bindings table budget)
      (walkAll g limits bindings' table' budget) := by
  have hrun := (Walk.Alike.start hbindings htable budget).run ha limits
  exact ⟨congrArg Array.toList hrun.roots, hrun.table, hrun.budget⟩

theorem walkOne_alike
    {value value' : Ref} {table table' : VariableTable}
    (ha : Heap.Alike R h g) (limits : WalkLimits) (name : String)
    (hvalue : R value value')
    (htable : table.Alike R table')
    (budget : Budget) :
    WalkedAlike R (walkOne h limits name value table budget)
      (walkOne g limits name value' table' budget) := by
  have hroot : List.Forall₂ (Value.FieldAlike R) [(name, value)] [(name, value')] :=
    .cons ⟨rfl, hvalue⟩ .nil
  have hrun := (Walk.Alike.start hroot htable budget).run ha limits
  exact ⟨congrArg (·[0]?) hrun.roots, hrun.table, hrun.budget⟩

/-! ### Stacks -/

/-- Captures that agree in all but identities. -/
structure CaptureState.Alike (R : Ref → Ref → Prop) (s s' : CaptureState) : Prop where
  table : s.table.Alike R s'.table
  budget : s.budget = s'.budget

namespace Stack

/-- The locals of an activation are paired with themselves. -/
def Fixes (R : Ref → Ref → Prop) (a : Activation) : Prop :=
  ∀ locals, a.locals = some locals → ∀ p ∈ locals, R p.2 p.2

/-- The class of a frame is read off its local `self` or `cls`, which is paired with itself. -/
theorem className?_eq
    {locals : List (String × Ref)}
    (ha : Heap.Alike R h g)
    (hlocals : ∀ p ∈ locals, R p.2 p.2) :
    className? h locals = className? g locals := by
  unfold className?
  cases hfound : locals.find? fun p => p.1 == "self" || p.1 == "cls" with
  | none =>
      rfl
  | some p =>
      have hread := ha.read (hlocals p (List.mem_of_find?_eq_some hfound))
      dsimp only
      generalize h.read p.2 = v at hread ⊢
      generalize g.read p.2 = w at hread ⊢
      cases hread <;> rfl

theorem processFrame_alike
    {s s' : CaptureState} {a : Activation}
    (ha : Heap.Alike R h g) (config : CaptureConfig) (rules : InApp) (depth : Nat)
    (hlocals : Fixes R a)
    (hs : s.Alike R s') :
    (processFrame h config rules depth a s).1 = (processFrame g config rules depth a s').1 ∧
      (processFrame h config rules depth a s).2.Alike R
        (processFrame g config rules depth a s').2 := by
  unfold processFrame
  rw [← hs.budget]
  cases hlocal : a.locals with
  | none =>
      exact ⟨rfl, hs.table, rfl⟩
  | some locals =>
      have hfixed := hlocals locals hlocal
      have hwalked := walkAll_alike ha config.walkLimits
        (List.forall₂_same.2 fun p hp => ⟨rfl, hfixed p hp⟩) hs.table
        (mayExpand config depth s.budget).2
      dsimp only
      split
      · refine ⟨?_, hwalked.table, hwalked.budget⟩
        rw [record, record, className?_eq ha hfixed, hwalked.answer]
      · refine ⟨?_, hs.table, rfl⟩
        rw [record, record, className?_eq ha hfixed]

/-- A stack is collected alike, by induction on its frames. -/
theorem processAll_alike
    {s s' : CaptureState} {stack : List Activation}
    (ha : Heap.Alike R h g) (config : CaptureConfig) (rules : InApp) (depth : Nat)
    (hstack : ∀ a ∈ stack, Fixes R a)
    (hs : s.Alike R s') :
    (processAll h config rules depth stack s).1 = (processAll g config rules depth stack s').1 ∧
      (processAll h config rules depth stack s).2.Alike R
        (processAll g config rules depth stack s').2 := by
  induction stack generalizing depth s s' with
  | nil =>
      exact ⟨rfl, hs⟩
  | cons a rest ih =>
      have hframe := processFrame_alike ha config rules depth (hstack a List.mem_cons_self) hs
      unfold processAll
      generalize processFrame h config rules depth a s = p at hframe ⊢
      generalize processFrame g config rules depth a s' = p' at hframe ⊢
      obtain ⟨frame?, t⟩ := p
      obtain ⟨_, t'⟩ := p'
      obtain ⟨rfl, ht⟩ := hframe
      cases frame? with
      | none =>
          exact ⟨rfl, ht⟩
      | some frame =>
          have hrest := ih (depth + 1) (fun a ha => hstack a (List.mem_cons_of_mem _ ha)) ht
          exact ⟨congrArg (Option.map (frame :: ·)) hrest.1, hrest.2⟩

theorem collect_alike
    {s s' : CaptureState} {f : HostFrame}
    (ha : Heap.Alike R h g) (config : CaptureConfig) (rules : InApp)
    (hstack : ∀ a ∈ f.stack, Fixes R a)
    (hs : s.Alike R s') :
    (collect h config rules f s).1 = (collect g config rules f s').1 ∧
      (collect h config rules f s).2.Alike R (collect g config rules f s').2 := by
  refine processAll_alike ha config rules 0 (fun a hmem => hstack a ?_) hs
  unfold recorded at hmem
  split at hmem
  · rw [List.mem_singleton.1 hmem]
    exact List.mem_cons_self
  · exact hmem

end Stack
end LiveProbe
