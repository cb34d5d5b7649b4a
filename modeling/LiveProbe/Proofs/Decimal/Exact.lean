import LiveProbe.Decimal.Binary
import Mathlib.Data.Rat.Floor
import Mathlib.Tactic.NormNum

/-!
# The number behind the bits

Which rational number a floating-point number is, and its whole part.

**Specification.**  A finite floating-point number is the signed product of its mantissa
and a power of two (`Decimal.rational?`); infinities and not-a-number are no numbers.
Cutting the fraction of a rational number rounds it toward zero (`Decimal.towardZero`).

**Fields of the bits.**  Sign, exponent and mantissa are read off the bits by shifts and
masks; these are the three fields of the format.

**Results.**
* `Decimal.rational?_ofFloat`: the parts that are read off the bits make up the number.
* `Decimal.truncate_eq_towardZero`: the whole part of the magnitude, with the sign, is the
  number without its fraction.
-/

namespace LiveProbe
namespace Decimal

open Float.Model (UnpackedFloat Format)
open Float.Model.UnpackedFloat (Sign unpackExponent unpackMantissa unpackSign)

/-- The number that an unpacked floating-point number stands for. -/
def unpackedRational? : UnpackedFloat → Option ℚ
  | .finite sign mantissa exponent _ => some (sign.apply mantissa * (2 : ℚ) ^ exponent)
  | .zero _ => some 0
  | .infinity _ | .notANumber => none

/-- The number that a floating-point number stands for; there is none for infinities and
not-a-number. -/
def rational? (x : Float) : Option ℚ := unpackedRational? x.toModel.unpack

/-- A number without its fraction. -/
def towardZero (q : ℚ) : Int := if q < 0 then ⌈q⌉ else ⌊q⌋

/-- The number of a magnitude. -/
def Magnitude.rational (m : Magnitude) : ℚ := m.mantissa * (2 : ℚ) ^ m.exponent

/-- The number of the parts of a floating-point number. -/
def Binary.rational? : Binary → Option ℚ
  | .finite negative m => some (if negative then -m.rational else m.rational)
  | .infinite _ | .nan => none

/-! ### Fields of the bits -/

section

variable (b : UInt64)

theorem toNat_unpackExponent :
    (@unpackExponent .binary64 b.toBitVec).toNat = ((b >>> 52) &&& 0x7FF).toNat := by
  change b.toNat >>> 52 % 2 ^ 11 = b.toNat >>> 52 &&& (2 ^ 11 - 1)
  rw [Nat.and_two_pow_sub_one_eq_mod]

theorem toNat_unpackMantissa :
    (@unpackMantissa .binary64 b.toBitVec).toNat = (b &&& 0xFFFFFFFFFFFFF).toNat := by
  change b.toNat % 2 ^ 52 = b.toNat &&& (2 ^ 52 - 1)
  rw [Nat.and_two_pow_sub_one_eq_mod]

theorem toNat_unpackSign :
    (@unpackSign .binary64 b.toBitVec).toNat = (b >>> 63).toNat := by
  change b.toNat >>> 63 % 2 ^ 1 = b.toNat >>> 63
  refine Nat.mod_eq_of_lt ?_
  rw [Nat.shiftRight_eq_div_pow]
  have := b.toNat_lt
  omega

theorem apply_unpackSign
    (n : Int) :
    (Sign.ofBitVec (@unpackSign .binary64 b.toBitVec)).apply n =
      if b >>> 63 == 1 then -n else n := by
  have hsign := toNat_unpackSign b
  by_cases hnegative : b >>> 63 = 1
  · have hne : @unpackSign .binary64 b.toBitVec ≠ 0#1 := by
      intro hzero
      rw [hzero, hnegative] at hsign
      cases hsign
    rw [Sign.ofBitVec, if_neg hne, if_pos (beq_iff_eq.mpr hnegative), Sign.apply]
  · have hzero : @unpackSign .binary64 b.toBitVec = 0#1 := by
      refine (BitVec.eq_zero_or_eq_one _).resolve_right fun hone => hnegative ?_
      rw [hone] at hsign
      exact UInt64.toNat_inj.mp hsign.symm
    rw [Sign.ofBitVec, if_pos hzero, if_neg (mt beq_iff_eq.mp hnegative), Sign.apply]

end

/-- The leading one of a normal number stands before its mantissa. -/
theorem toNat_one_append
    (m : BitVec 52) :
    (1#1 ++ m).toNat = place 2 52 + m.toNat := by
  rw [BitVec.toNat_append, ← Nat.shiftLeft_add_eq_or_of_lt m.isLt]
  rfl

/-! ### The number of the parts -/

/-- A finite number is its signed mantissa at its exponent. -/
theorem Binary.rational?_finite
    (negative : Bool) (m : Magnitude) :
    (Binary.finite negative m).rational? =
      some (((if negative then -(m.mantissa : Int) else m.mantissa : Int) : ℚ) *
        (2 : ℚ) ^ m.exponent) := by
  cases negative with
  | false => rfl
  | true => simp [Binary.rational?, Magnitude.rational]

/-- Below the normal range the exponent is the least one, and the number is zero when the
mantissa is. -/
theorem Binary.rational?_ofBits
    (b : UInt64) :
    (Binary.ofBits b).rational? =
      unpackedRational? (UnpackedFloat.unpack .binary64 b.toBitVec) := by
  have hexponent := toNat_unpackExponent b
  have hmantissa := toNat_unpackMantissa b
  have hsign := apply_unpackSign b
  rw [Binary.ofBits]
  delta UnpackedFloat.unpack
  dsimp only
  rw [← hexponent, ← hmantissa]
  by_cases hspecial : @unpackExponent .binary64 b.toBitVec = -1#11
  · rw [if_pos hspecial, hspecial, if_pos (by rfl)]
    split <;> split <;> rfl
  have hfield : (@unpackExponent .binary64 b.toBitVec).toNat ≠ 0x7FF :=
    fun h => hspecial (BitVec.eq_of_toNat_eq h)
  rw [if_neg hspecial, if_neg (mt beq_iff_eq.mp hfield)]
  by_cases hsubnormal : @unpackExponent .binary64 b.toBitVec = 0#11
  · rw [if_pos hsubnormal, hsubnormal, if_pos (by rfl), Binary.rational?_finite,
      ← hsign]
    by_cases hzero : @unpackMantissa .binary64 b.toBitVec = 0#52
    · have hnothing : (Sign.ofBitVec (@unpackSign .binary64 b.toBitVec)).apply 0 = 0 := by
        rw [hsign, neg_zero, ite_self]
      rw [dif_pos hzero, hzero]
      refine congrArg some ?_
      change ((Sign.apply _ 0 : Int) : ℚ) * _ = 0
      rw [hnothing, Int.cast_zero, zero_mul]
    · rw [dif_neg hzero]
      rfl
  · have hpos : (@unpackExponent .binary64 b.toBitVec).toNat ≠ 0 :=
      fun h => hsubnormal (BitVec.eq_of_toNat_eq h)
    rw [if_neg hsubnormal, if_neg (mt beq_iff_eq.mp hpos), Binary.rational?_finite, ← hsign,
      ← toNat_one_append]
    rfl

theorem rational?_ofFloat
    (x : Float) :
    (Binary.ofFloat x).rational? = rational? x :=
  Binary.rational?_ofBits x.toBits

/-- The value of a finite number by its magnitude. -/
theorem rational?_of_finite
    {x : Float} {negative : Bool} {m : Magnitude}
    (hx : Binary.ofFloat x = .finite negative m) :
    rational? x = some (if negative then -m.rational else m.rational) := by
  rw [← rational?_ofFloat, hx, Binary.rational?]

/-! ### Whole parts -/

theorem cast_place_two
    (k : Nat) :
    (place 2 k : ℚ) = 2 ^ k := Nat.cast_pow 2 k

/-- One of the two places is the place of the ones. -/
theorem Magnitude.rational_eq_div
    (m : Magnitude) :
    m.rational = ((m.mantissa * place 2 m.exponent.toNat : Nat) : ℚ) /
      (place 2 (-m.exponent).toNat : Nat) := by
  have hpower : (2 : ℚ) ^ m.exponent = 2 ^ m.exponent.toNat / 2 ^ (-m.exponent).toNat := by
    rw [← zpow_natCast, ← zpow_natCast, ← zpow_sub₀ two_ne_zero, Int.toNat_sub_toNat_neg]
  rw [Magnitude.rational, hpower, Nat.cast_mul, cast_place_two, cast_place_two, mul_div_assoc]

theorem Magnitude.rational_nonneg
    (m : Magnitude) :
    0 ≤ m.rational :=
  mul_nonneg (Nat.cast_nonneg _) (zpow_nonneg zero_le_two _)

theorem Magnitude.truncate_eq_floor
    (m : Magnitude) :
    (m.truncate : Int) = ⌊m.rational⌋ := by
  rw [Magnitude.rational_eq_div, Rat.floor_natCast_div_natCast, Magnitude.truncate,
    Int.natCast_div]

theorem towardZero_of_nonneg
    {q : ℚ}
    (h : 0 ≤ q) :
    towardZero q = ⌊q⌋ :=
  if_neg (not_lt.mpr h)

theorem towardZero_neg
    (q : ℚ) :
    towardZero (-q) = -towardZero q := by
  rcases lt_trichotomy q 0 with hneg | rfl | hpos
  · rw [towardZero_of_nonneg (neg_nonneg.mpr hneg.le), towardZero, if_pos hneg, Int.floor_neg]
  · simp [towardZero]
  · rw [towardZero_of_nonneg hpos.le, towardZero, if_pos (neg_neg_of_pos hpos), Int.ceil_neg]

/-- The whole part of a magnitude, with the sign, is the number without its fraction. -/
theorem truncate_eq_towardZero
    (negative : Bool) (m : Magnitude) :
    (if negative then -(m.truncate : Int) else m.truncate) =
      towardZero (if negative then -m.rational else m.rational) := by
  have hwhole : (m.truncate : Int) = towardZero m.rational := by
    rw [m.truncate_eq_floor, towardZero_of_nonneg m.rational_nonneg]
  cases negative with
  | false => exact hwhole
  | true => exact (congrArg Neg.neg hwhole).trans (towardZero_neg m.rational).symm

end Decimal
end LiveProbe
