import Std.Data.HashMap
import LiveProbe.Value.Basic
import LiveProbe.Variable.Record

/-!
# Lookup table of one capture

Records are numbered from one in the order in which they are made, and their ids
are these numbers in decimal. A value is recognised by its identity.

**Results.**
* `size_register`, `size_addChild`, `size_markTruncated`: only a new record makes
  the table larger.
-/

namespace LiveProbe

/-- The records of one capture and the numbers of the values seen. -/
structure VariableTable where
  records : Array Variable
  numbers : Std.HashMap Ref Nat

namespace VariableTable

/-- The table without records. -/
def empty : VariableTable := ⟨#[], ∅⟩

/-- The number of records. -/
def size (t : VariableTable) : Nat := t.records.size

/-- The id of a record. -/
def idOf (number : Nat) : String := toString number

/-- The number of a value seen before. -/
def number? (t : VariableTable) (r : Ref) : Option Nat := t.numbers[r]?

/-- The number that the next record gets. -/
def next (t : VariableTable) : Nat := t.records.size + 1

/-- Records a new value. -/
def register (t : VariableTable) (r : Ref) (v : Variable) : VariableTable :=
  let number := t.next
  ⟨t.records.push v, t.numbers.insert r number⟩

/-- Changes the record of a number. -/
def modify (t : VariableTable) (number : Nat) (f : Variable → Variable) : VariableTable :=
  ⟨t.records.modify (number - 1) f, t.numbers⟩

/-- Appends a child to the record of a number. -/
def addChild (t : VariableTable) (parent : Nat) (child : VariableId) : VariableTable :=
  t.modify parent fun v => { v with children := v.children.push child }

/-- Marks the record of a number as truncated. -/
def markTruncated (t : VariableTable) (number : Nat) : VariableTable :=
  t.modify number fun v => { v with truncated := true }

@[simp] theorem size_empty : empty.size = 0 := rfl

@[simp] theorem size_register (t : VariableTable) (r : Ref) (v : Variable) :
    (t.register r v).size = t.size + 1 := by
  simp [register, size]

@[simp] theorem size_modify (t : VariableTable) (number : Nat) (f : Variable → Variable) :
    (t.modify number f).size = t.size := by
  simp [modify, size]

@[simp] theorem size_addChild (t : VariableTable) (parent : Nat) (child : VariableId) :
    (t.addChild parent child).size = t.size := by
  simp [addChild]

@[simp] theorem size_markTruncated (t : VariableTable) (number : Nat) :
    (t.markTruncated number).size = t.size := by
  simp [markTruncated]

/-- The records with their ids, in the order in which they were made. -/
def lookup (t : VariableTable) : List (String × Variable) :=
  t.records.toList.zipIdx.map fun p => (idOf (p.2 + 1), p.1)

end VariableTable
end LiveProbe
