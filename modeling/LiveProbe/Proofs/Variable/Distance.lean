import Mathlib.Algebra.Order.BigOperators.Group.Finset
import Mathlib.Order.Bounds.Basic
import LiveProbe.Proofs.Variable.Walking

/-!
# Distances in a graph of values

What a walk is to show, told from the values alone.

**Graph.**  The children that a value *shows* are all that it has, but of a list, a tuple or
a set only the first ones, as many as the size of collections allows (`Heap.shown`).  A value
is *reached* from the bindings along such children (`Heap.Reaches`); its distance is the
length of a shortest way (`Heap.IsDistance`).

**Results.**
* `childrenUpTo_childCap`, `childCap_lt_iff_of_le`: where there is room for the children
  that a value shows, those are followed, and others are left out only for the size of a
  collection.
* `slotsOf_erase`: a value that is recorded takes the children that it shows from those that
  are still to come.
-/

namespace LiveProbe
namespace Heap

variable (h : Heap) (limits : WalkLimits)

/-- The value is a list, a tuple or a set. -/
def isCollection (r : Ref) : Bool :=
  (h.read r).kind = .sequence || (h.read r).kind = .set

/-- The children that a value shows. -/
def shown (r : Ref) : List Child :=
  if h.isCollection r then (h.children r).take limits.maxCollectionSize else h.children r

/-- The value is a collection with more items than it shows. -/
def isShortened (r : Ref) : Bool :=
  h.isCollection r && limits.maxCollectionSize < h.childCount r

/-- The value is reached from the bindings on a way of a length. -/
inductive Reaches (bindings : List (String × Ref)) : Nat → Ref → Prop
  | root {b : String × Ref} :
      b ∈ bindings →
      Reaches bindings 0 b.2
  | child {n : Nat} {r : Ref} {c : Child} :
      Reaches bindings n r →
      c ∈ h.shown limits r →
      Reaches bindings (n + 1) c.value

/-- The length of a shortest way to the value. -/
def IsDistance (bindings : List (String × Ref)) (r : Ref) (d : Nat) : Prop :=
  IsLeast {n | h.Reaches limits bindings n r} d

open Classical in
/-- The number of children that are shown by the values that are reached and of which the
property holds. -/
noncomputable def slotsOf (bindings : List (String × Ref)) (p : Ref → Prop) : Nat :=
  ∑ r ∈ Finset.range h.size with (∃ n, h.Reaches limits bindings n r) ∧ p r,
    (h.shown limits r).length

/-- The number of children that are shown by the values that are reached. -/
noncomputable def slots (bindings : List (String × Ref)) : Nat :=
  h.slotsOf limits bindings fun _ => True

/-! ### Room for the children that are shown -/

variable {h limits}

/-- A collection shows as many items as its limit allows, anything else all its children. -/
theorem length_shown
    (r : Ref) :
    (h.shown limits r).length =
      if h.isCollection r then min limits.maxCollectionSize (h.childCount r)
      else h.childCount r := by
  unfold shown
  split <;> simp [length_children]

/-- With room for all that is shown, the room cuts nothing. -/
theorem childrenUpTo_childCap
    {r : Ref} {room : Nat}
    (hroom : (h.shown limits r).length ≤ room) :
    h.childrenUpTo (childCap limits room (h.read r).kind) r = h.shown limits r := by
  have hall : h.childCount r ≤ room → (h.children r).take room = h.children r := by
    intro hcount
    rw [← length_children] at hcount
    exact List.take_of_length_le hcount
  rw [length_shown] at hroom
  rw [childrenUpTo_eq_take]
  unfold shown isCollection at *
  cases hkind : (h.read r).kind <;> simp only [hkind, childCap] at hroom ⊢ <;>
    first
    | exact hall hroom
    | (rw [if_pos (by decide)] at hroom ⊢
       rw [List.take_eq_take_iff, length_children]
       omega)

/-- Children are left out of collections only. -/
theorem childCap_lt_iff_of_le
    {r : Ref} {room : Nat}
    (hroom : (h.shown limits r).length ≤ room) :
    childCap limits room (h.read r).kind < h.childCount r ↔ h.isShortened limits r = true := by
  rw [length_shown] at hroom
  unfold isShortened isCollection at *
  cases hkind : (h.read r).kind <;> simp [hkind, childCap] at hroom ⊢ <;> omega

/-- Outside of the heap there are no children. -/
theorem shown_of_size_le
    {r : Ref}
    (hr : h.size ≤ r) :
    h.shown limits r = [] := by
  have hnone : h.read r = .none := by
    rw [read, Array.getD_eq_getD_getElem?, Array.getElem?_eq_none hr, Option.getD_none]
  simp [shown, children, childrenUpTo, hnone]

/-- A value that no longer counts takes the children that it shows with it. -/
theorem slotsOf_erase
    {bindings : List (String × Ref)} {n : Nat} {r : Ref}
    (hr : h.Reaches limits bindings n r)
    {p q : Ref → Prop}
    (hp : p r)
    (hq : ∀ s, q s ↔ p s ∧ s ≠ r) :
    h.slotsOf limits bindings q + (h.shown limits r).length = h.slotsOf limits bindings p := by
  classical
  have herase :
      {s ∈ Finset.range h.size | (∃ n, h.Reaches limits bindings n s) ∧ q s} =
        {s ∈ Finset.range h.size | (∃ n, h.Reaches limits bindings n s) ∧ p s}.erase r := by
    ext s
    simp only [Finset.mem_filter, Finset.mem_erase, hq]
    tauto
  unfold slotsOf
  rw [herase]
  by_cases hsize : r < h.size
  · exact Finset.sum_erase_add _ _ (Finset.mem_filter.2 ⟨Finset.mem_range.2 hsize, ⟨n, hr⟩, hp⟩)
  · rw [shown_of_size_le (Nat.le_of_not_lt hsize), List.length_nil, Nat.add_zero,
      Finset.erase_eq_of_notMem fun hmem => ?_]
    exact hsize (Finset.mem_range.1 (Finset.mem_filter.1 hmem).1)

/-- There are no more places than in all values of the heap. -/
theorem slotsOf_le_sum
    (bindings : List (String × Ref)) (p : Ref → Prop) :
    h.slotsOf limits bindings p ≤ ∑ r ∈ Finset.range h.size, (h.shown limits r).length := by
  unfold slotsOf
  classical
  exact Finset.sum_le_sum_of_subset (Finset.filter_subset _ _)

end Heap
end LiveProbe
