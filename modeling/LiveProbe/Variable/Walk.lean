import LiveProbe.Budget
import LiveProbe.Value.Text
import LiveProbe.Variable.Table

/-!
# Walk over live values

Bounded breadth-first conversion of values into records.

**Input.** A heap, named roots, bounds, and a time budget.

**Algorithm.** Nodes wait in a queue. A node whose value was seen before only adds
a reference. Any other is recorded, and where the depth allows it, its children
join the end of the queue. The walk halts before a node once the table has the
largest number of records or the time has run out; then everything shallower has
been processed before anything deeper.

**Results.**
* `Walk.measure_step`: every step shortens the queue or uses up room in the table,
  so the walk ends on every heap.
-/

namespace LiveProbe

/-- A value on its way to be recorded, before its place in the walk is known. -/
structure Child where
  name : String
  value : Ref
  modifiers : List String
  originalName : Option String

/-- A child under a name that says all. -/
def Child.plain (name : String) (value : Ref) : Child := ⟨name, value, [], none⟩

/-- Modifier of a private field. -/
def privateModifier : String := "private"

/-- Modifier of a protected field. -/
def protectedModifier : String := "protected"

/-- What follows `lead` in a text that begins with it. -/
def dropLead? (lead text : List Char) : Option (List Char) :=
  if lead.isPrefixOf text then some (text.drop lead.length) else none

/-- The field of an object as a child. Two leading underscores make it private
unless two trailing ones close it, one makes it protected. A private field stored
under the name of its type is shown without the type. -/
def Child.ofField (typeName field : String) (value : Ref) : Child :=
  let cs := field.toList
  let lead := '_' :: typeName.toList.dropWhile (· == '_') ++ ['_', '_']
  match dropLead? lead cs with
  | some rest =>
    ⟨String.ofList ('_' :: '_' :: rest), value, [privateModifier], some field⟩
  | none =>
    let dunder := ['_', '_'].isPrefixOf cs
    let closed := ['_', '_'].isSuffixOf cs
    if dunder && !closed then ⟨field, value, [privateModifier], none⟩
    else if ['_'].isPrefixOf cs && !dunder then ⟨field, value, [protectedModifier], none⟩
    else .plain field value

/-- Values under their positions. -/
def Child.indexed (items : List Ref) : List Child :=
  items.zipIdx.map fun p => .plain (toString p.2) p.1

namespace Heap

/-- The text that a record keeps of a value, before it is cut. Containers show
their size, and an iterator is not consumed. -/
def summary (h : Heap) (r : Ref) : String :=
  let v := h.read r
  match v.kind with
  | .sequence | .set | .mapping => s!"Size: {v.length?.getD 0}"
  | .iterator => s!"Iterator of type: {v.typeName}"
  | _ => h.display r

/-- The largest number of children that are followed. The size of a collection
bounds those of sequences and sets. -/
def childCap (limits : WalkLimits) (room : Nat) : ValueKind → Nat
  | .sequence | .set => min limits.maxCollectionSize room
  | _ => room

/-- The number of children of a value. -/
def childCount (h : Heap) (r : Ref) : Nat :=
  match h.read r with
  | .list items | .tuple items | .set items => items.length
  | .dict entries => entries.length
  | .exception _ args => args.length
  | .object _ fields _ => fields.length
  | _ => 0

/-- The first `cap` children of a value. -/
def childrenUpTo (h : Heap) (cap : Nat) (r : Ref) : List Child :=
  match h.read r with
  | .list items | .tuple items | .set items => Child.indexed (items.take cap)
  | .dict entries => (entries.take cap).map fun e => .plain (h.display e.1) e.2
  | .exception _ args => Child.indexed (args.take cap)
  | .object typeName fields _ => (fields.take cap).map fun f => Child.ofField typeName f.1 f.2
  | _ => []

end Heap

/-- A node of the walk: a child, its depth, and the record it belongs to. -/
structure Node where
  child : Child
  depth : Nat
  parent : Option Nat

/-- A node at the root. -/
def Node.root (name : String) (value : Ref) : Node := ⟨.plain name value, 0, none⟩

/-- The reference to a record at the place of a node. -/
def Node.reference (n : Node) (number : Nat) : VariableId :=
  ⟨VariableTable.idOf number, n.child.name, n.child.modifiers, n.child.originalName⟩

/-- The state of a walk. -/
structure Walk where
  queue : List Node
  table : VariableTable
  roots : Array VariableId
  budget : Budget

namespace Walk

/-- Adds the reference of a node to its parent or to the roots. -/
def attach (w : Walk) (n : Node) (number : Nat) : Walk :=
  match n.parent with
  | none => { w with roots := w.roots.push (n.reference number) }
  | some parent => { w with table := w.table.addChild parent (n.reference number) }

/-- The record of a value before any child is attached. -/
def recordOf (h : Heap) (limits : WalkLimits) (r : Ref) : Variable :=
  let cut := truncateChars limits.maxStringLength (h.summary r)
  ⟨(h.read r).typeName, cut.1, toString r, #[], cut.2⟩

/-- Follows the children of the value with a number, as far as `room` allows. -/
def expand (h : Heap) (limits : WalkLimits) (room : Nat) (n : Node) (number : Nat) (w : Walk) :
    Walk :=
  let cap := Heap.childCap limits room (h.read n.child.value).kind
  let marked : Walk :=
    if cap < h.childCount n.child.value then
      { w with table := w.table.markTruncated number }
    else w
  match h.childrenUpTo cap n.child.value with
  | [] => marked
  | children =>
    { marked with
      queue := marked.queue ++ children.map fun c => ⟨c, n.depth + 1, some number⟩ }

/-- Processes a node that has been taken from the queue. -/
def process (h : Heap) (limits : WalkLimits) (w : Walk) (n : Node) : Walk :=
  match w.table.number? n.child.value with
  | some number => w.attach n number
  | none =>
    let number := w.table.next
    let recorded : Walk :=
      { w with table := w.table.register n.child.value (recordOf h limits n.child.value) }
    let attached := recorded.attach n number
    if n.depth + 1 < limits.maxVarDepth then
      attached.expand h limits (limits.maxVariables - attached.table.size) n number
    else attached

/-- The walk may not process a further node. -/
def halted (limits : WalkLimits) (w : Walk) : Bool :=
  limits.maxVariables ≤ w.table.size || w.budget.exceeded

/-- No node is left, or none may be processed. -/
def isOver (limits : WalkLimits) (w : Walk) : Bool := w.queue.isEmpty || w.halted limits

/-- One step of the walk: the node at the front of the queue. -/
def step (h : Heap) (limits : WalkLimits) (w : Walk) : Walk :=
  match w.queue with
  | [] => w
  | n :: rest => ({ w with queue := rest, budget := w.budget.spend } : Walk).process h limits n

@[simp] theorem size_attach (w : Walk) (n : Node) (number : Nat) :
    (w.attach n number).table.size = w.table.size := by
  unfold attach
  split <;> simp

@[simp] theorem queue_attach (w : Walk) (n : Node) (number : Nat) :
    (w.attach n number).queue = w.queue := by
  unfold attach
  split <;> rfl

@[simp] theorem size_expand (h : Heap) (limits : WalkLimits) (room : Nat) (n : Node)
    (number : Nat) (w : Walk) : (w.expand h limits room n number).table.size = w.table.size := by
  unfold expand
  dsimp only
  split <;> split <;> simp

/-- Processing a node either leaves table and queue as large as they are or adds
one record. -/
theorem size_process (h : Heap) (limits : WalkLimits) (w : Walk) (n : Node) :
    ((w.process h limits n).table.size = w.table.size ∧
      (w.process h limits n).queue = w.queue) ∨
      (w.process h limits n).table.size = w.table.size + 1 := by
  unfold process
  split
  · simp
  · right
    dsimp only
    split <;> simp

theorem measure_step {h : Heap} {limits : WalkLimits} {w : Walk} (hw : w.isOver limits = false) :
    Prod.Lex (· < ·) (· < ·)
      (limits.maxVariables - (w.step h limits).table.size, (w.step h limits).queue.length)
      (limits.maxVariables - w.table.size, w.queue.length) := by
  simp only [isOver, halted, Bool.or_eq_false_iff, decide_eq_false_iff_not] at hw
  unfold step
  split
  · next hq => simp [hq] at hw
  · next n rest hq =>
    rcases size_process h limits { w with queue := rest, budget := w.budget.spend } n with
      ⟨hs, hl⟩ | hs
    · rw [hs, hl, hq]
      exact Prod.Lex.right _ (by simp)
    · rw [hs]
      exact Prod.Lex.left _ _ (by dsimp only; omega)

/-- The walk from a state to its end. -/
def run (h : Heap) (limits : WalkLimits) (w : Walk) : Walk :=
  if w.isOver limits then w else run h limits (w.step h limits)
termination_by (limits.maxVariables - w.table.size, w.queue.length)
decreasing_by exact measure_step (by simpa using ‹¬w.isOver limits = true›)

/-- The start of a walk from named roots. -/
def start (bindings : List (String × Ref)) (table : VariableTable) (budget : Budget) : Walk :=
  ⟨bindings.map fun b => .root b.1 b.2, table, #[], budget⟩

end Walk

/-- Walks named values. Returned are the references of the roots that were
reached, in order, with the table and the budget afterwards. -/
def walkAll (h : Heap) (limits : WalkLimits) (bindings : List (String × Ref))
    (table : VariableTable) (budget : Budget) : List VariableId × VariableTable × Budget :=
  let w := (Walk.start bindings table budget).run h limits
  (w.roots.toList, w.table, w.budget)

/-- Walks a single named value. -/
def walkOne (h : Heap) (limits : WalkLimits) (name : String) (value : Ref)
    (table : VariableTable) (budget : Budget) : Option VariableId × VariableTable × Budget :=
  let w := (Walk.start [(name, value)] table budget).run h limits
  (w.roots[0]?, w.table, w.budget)

end LiveProbe
