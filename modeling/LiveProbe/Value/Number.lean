import LiveProbe.Decimal.Binary
import LiveProbe.Value.Basic

/-!
# Numbers

The numeric reading of values. Booleans count as integers, and an integer meets
a floating-point number as the nearest one.
-/

namespace LiveProbe

/-- Integers and floating-point numbers. -/
inductive Number
  | int (value : Int64)
  | float (value : Float)

/-- Zero for false, one for true. -/
def bit (b : Bool) : Int64 := if b then 1 else 0

/-- The floating-point number nearest to an integer. -/
def nearestFloat (i : Int64) : Float := Decimal.nearest (i.toInt < 0) i.toInt.natAbs 1

/-- An integer, if it fits 64 bits. -/
def fit? (n : Int) : Option Int64 :=
  if -0x8000000000000000 ≤ n ∧ n ≤ 0x7FFFFFFFFFFFFFFF then some (Int64.ofInt n) else none

theorem toInt_of_fit? {n : Int} {i : Int64} (h : fit? n = some i) : i.toInt = n := by
  unfold fit? at h
  split at h
  · next hn =>
    injection h with h
    subst h
    exact Int64.toInt_ofInt_of_le hn.1 (Int.lt_of_le_sub_one hn.2)
  · cases h

theorem fit?_eq_none_iff (n : Int) :
    fit? n = none ↔ ¬(-0x8000000000000000 ≤ n ∧ n ≤ 0x7FFFFFFFFFFFFFFF) := by
  simp [fit?]

/-- The integer nearest to `n` among those of 64 bits. -/
def clamp (n : Int) : Int64 :=
  if n < -0x8000000000000000 then Int64.minValue
  else if 0x7FFFFFFFFFFFFFFF < n then Int64.maxValue
  else Int64.ofInt n

namespace Number

/-- The floating-point reading of a number. -/
def toFloat : Number → Float
  | .int i => nearestFloat i
  | .float x => x

/-- Numbers of one kind are compared as they are, mixed ones as floating-point
numbers. -/
def same : Number → Number → Bool
  | .int a, .int b => a == b
  | a, b => a.toFloat == b.toFloat

/-- The order of two numbers; there is none beside not-a-number. -/
def order? : Number → Number → Option Ordering
  | .int a, .int b => some (compare a.toInt b.toInt)
  | a, b =>
    let x := a.toFloat
    let y := b.toFloat
    if x < y then some .lt
    else if x == y then some .eq
    else if y < x then some .gt
    else none

end Number

/-- The numeric reading of a value. -/
def Value.number? : Value → Option Number
  | .int i => some (.int i)
  | .bool b => some (.int (bit b))
  | .float x => some (.float x)
  | _ => Option.none

end LiveProbe
