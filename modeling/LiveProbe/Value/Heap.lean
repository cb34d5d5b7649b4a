import LiveProbe.Value.Basic

/-!
# Heap of live values

One cell per identity. New values get fresh identities, so a value read once
keeps its identity for good.

**Results.**
* `read_alloc_self`, `read_alloc_of_lt`: a fresh cell holds its value and no
  other cell changes.
* `read_write_self`, `read_write_of_ne`: the same for a mutation.
-/

namespace LiveProbe

/-- The cells of all live values, by identity. -/
structure Heap where
  cells : Array Value

namespace Heap

/-- The heap without values. -/
def empty : Heap := ⟨#[]⟩

/-- The number of cells; identities below it are in use. -/
def size (h : Heap) : Nat := h.cells.size

/-- The value with an identity. -/
def read (h : Heap) (r : Ref) : Value := h.cells.getD r .none

/-- A new cell with a fresh identity. -/
def alloc (h : Heap) (v : Value) : Ref × Heap := (h.cells.size, ⟨h.cells.push v⟩)

/-- Replaces the value of a cell. -/
def write (h : Heap) (r : Ref) (v : Value) : Heap := ⟨h.cells.setIfInBounds r v⟩

@[simp] theorem read_alloc_self (h : Heap) (v : Value) :
    (h.alloc v).2.read (h.alloc v).1 = v := by
  simp [alloc, read]

@[simp] theorem read_alloc_of_lt (h : Heap) (v : Value) {r : Ref} (hr : r < h.size) :
    (h.alloc v).2.read r = h.read r := by
  simp only [size] at hr
  simp [alloc, read, Array.getElem?_push, Nat.ne_of_lt hr]

@[simp] theorem size_alloc (h : Heap) (v : Value) : (h.alloc v).2.size = h.size + 1 := by
  simp [alloc, size]

@[simp] theorem size_write (h : Heap) (r : Ref) (v : Value) : (h.write r v).size = h.size := by
  simp [write, size]

theorem read_write_self (h : Heap) {r : Ref} (v : Value) (hr : r < h.size) :
    (h.write r v).read r = v := by
  simp only [size] at hr
  simp [write, read, hr]

theorem read_write_of_ne (h : Heap) {r s : Ref} (v : Value) (hne : r ≠ s) :
    (h.write r v).read s = h.read s := by
  simp [write, read, hne]

/-- Mutations as the observed program makes them. -/
inductive Mutation
  | push (target item : Ref)
  | setField (target : Ref) (name : String) (value : Ref)
  | insert (target key value : Ref)

/-- The heap after a mutation. -/
def mutate (h : Heap) : Mutation → Heap
  | .push target item => h.write target ((h.read target).pushItem item)
  | .setField target name value => h.write target ((h.read target).setField name value)
  | .insert target key value => h.write target ((h.read target).insertEntry key value)

end Heap
end LiveProbe
