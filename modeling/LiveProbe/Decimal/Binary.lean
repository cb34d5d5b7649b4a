import LiveProbe.Decimal.Place

/-!
# Binary floating-point numbers

The parts of a 64-bit floating-point number, and the number nearest to a
quotient of naturals.

**Algorithm.** `nearest num den` scales the quotient to a whole number of 53
bits (fewer below the normal range), rounds it half to even on the remainder,
and assembles the bits. A carry out of the 53 bits runs into the exponent,
which is the wanted result, up to infinity.

**Results.**
* `roundHalfEven_near`: a rounded quotient is within half a unit of the exact one.
-/

namespace LiveProbe
namespace Decimal

/-- The magnitude `mantissa * 2 ^ exponent` of a finite number. -/
structure Magnitude where
  mantissa : Nat
  exponent : Int
  /-- The gap to the number below is half the gap to the number above. -/
  narrowBelow : Bool
  deriving DecidableEq, Repr

/-- The classes of floating-point numbers. -/
inductive Binary
  | nan
  | infinite (negative : Bool)
  | finite (negative : Bool) (magnitude : Magnitude)
  deriving DecidableEq, Repr

/-- The class and the parts that 64 bits stand for. -/
def Binary.ofBits (b : UInt64) : Binary :=
  let negative := b >>> 63 == 1
  let e := ((b >>> 52) &&& 0x7FF).toNat
  let f := (b &&& 0xFFFFFFFFFFFFF).toNat
  if e == 0x7FF then
    if f == 0 then .infinite negative else .nan
  else if e == 0 then .finite negative ⟨f, -1074, false⟩
  else .finite negative ⟨place 2 52 + f, (e : Int) - 1075, f == 0 && e > 1⟩

/-- The class and the parts of a floating-point number. -/
def Binary.ofFloat (x : Float) : Binary := .ofBits x.toBits

/-- The number of binary digits; zero has none. -/
def bitLength (n : Nat) : Nat := if n = 0 then 0 else n.log2 + 1

/-- A quotient rounded to the nearest whole number, halves to even. -/
def roundHalfEven (num den : Nat) : Nat :=
  let q := num / den
  let r := num % den
  if 2 * r < den then q
  else if den < 2 * r then q + 1
  else if q % 2 = 0 then q else q + 1

theorem roundHalfEven_near (num den : Nat) (h : 0 < den) :
    2 * (roundHalfEven num den * den) ≤ 2 * num + den ∧
      2 * num ≤ 2 * (roundHalfEven num den * den) + den := by
  have e : den * (num / den) + num % den = num := Nat.div_add_mod num den
  have l : num % den < den := Nat.mod_lt _ h
  have c : num / den * den = den * (num / den) := Nat.mul_comm ..
  have s : (num / den + 1) * den = den * (num / den) + den := by
    rw [Nat.add_mul, Nat.mul_comm, Nat.one_mul]
  unfold roundHalfEven
  grind

/-- The binary exponent of the last place kept for `num / den`: 53 bits remain
before it, and it is never below the last place of the smallest numbers. -/
def lastPlace (num den : Nat) : Int :=
  let estimate : Int := (bitLength num : Int) - bitLength den - 53
  -- the quotient has 53 or 54 bits before the estimated place
  let fits := num * place 2 (-estimate).toNat < place 2 53 * den * place 2 estimate.toNat
  max (-1074) (if fits then estimate else estimate + 1)

/-- The bits of the number nearest to `num / den`, ties to even; overflow goes
to infinity. -/
def nearestBits (negative : Bool) (num den : Nat) : UInt64 :=
  let sign : UInt64 := if negative then 0x8000000000000000 else 0
  if num = 0 then sign
  else
    let q := lastPlace num den
    let m := roundHalfEven (num * place 2 (-q).toNat) (den * place 2 q.toNat)
    -- at the lowest place the mantissa itself is the encoding
    let encoded := if m < place 2 52 then m else m - place 2 52 + (q + 1075).toNat * place 2 52
    sign ||| (min encoded (0x7FF * place 2 52)).toUInt64

/-- The number nearest to `num / den`. -/
def nearest (negative : Bool) (num den : Nat) : Float :=
  Float.ofBits (nearestBits negative num den)

/-- The whole number that remains when the fraction of a magnitude is cut. -/
def Magnitude.truncate (m : Magnitude) : Nat :=
  m.mantissa * place 2 m.exponent.toNat / place 2 (-m.exponent).toNat

/-- The magnitude is a whole number. -/
def Magnitude.isWhole (m : Magnitude) : Bool :=
  m.mantissa * place 2 m.exponent.toNat % place 2 (-m.exponent).toNat == 0

/-- The remainder of a division toward zero. It has the sign of the dividend
and is exact, because it is a multiple of the finer of the two last places.
There is no remainder of an infinite dividend or by zero. -/
def remainder (x y : Float) : Float :=
  match Binary.ofFloat x, Binary.ofFloat y with
  | .finite negative a, .finite _ b =>
    if b.mantissa = 0 then Float.ofBits 0x7FF8000000000000
    else
      let q := min a.exponent b.exponent
      let r := a.mantissa * place 2 (a.exponent - q).toNat %
        (b.mantissa * place 2 (b.exponent - q).toNat)
      nearest negative (r * place 2 q.toNat) (place 2 (-q).toNat)
  | .finite .., .infinite _ => x
  | _, _ => Float.ofBits 0x7FF8000000000000

end Decimal
end LiveProbe
