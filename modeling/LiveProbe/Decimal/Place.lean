/-!
# Places

The weight of a place in a positional notation.

**Results.**
* `place_succ`, `place_add`, `place_pos`: weights multiply along the places and
  are never zero in a base above zero.
-/

namespace LiveProbe
namespace Decimal

/-- The weight of the place `k`: the `k`-th power of the base. -/
def place (base k : Nat) : Nat := Nat.pow base k

theorem place_zero (base : Nat) : place base 0 = 1 := rfl

theorem place_succ (base k : Nat) : place base (k + 1) = place base k * base := rfl

theorem place_add (base j k : Nat) : place base (j + k) = place base j * place base k := by
  induction k with
  | zero => rw [Nat.add_zero, place_zero, Nat.mul_one]
  | succ k ih => rw [← Nat.add_assoc, place_succ, place_succ, ih, Nat.mul_assoc]

theorem place_pos {base : Nat} (h : 0 < base) (k : Nat) : 0 < place base k := by
  induction k with
  | zero => exact Nat.one_pos
  | succ k ih => exact Nat.mul_pos ih h

end Decimal
end LiveProbe
