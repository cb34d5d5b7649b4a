import LiveProbe.Decimal.Binary

/-!
# Shortest decimals

The decimal with the fewest digits that reads back to a given binary number,
and its positional notation.

**Specification.** `Magnitude.readsBack` says which decimals lie among the reals
that round to a number: the interval between the halfway points to its two
neighbours, ends included exactly when the mantissa is even.

**Algorithm.** The grids of one, two, ... digits are tried in turn. On each the
two neighbours of the number are tested; the first grid with a hit wins, of two
hits the closer, and of two equally close the upper.

**Results.**
* `readsBack_ofGrid?`: what a grid offers reads back.
-/

namespace LiveProbe
namespace Decimal

/-- The decimal `digits * 10 ^ exponent`. -/
structure Digits where
  digits : Nat
  exponent : Int
  deriving DecidableEq, Repr

/-- Exact comparison of `a * 10 ^ i` with `n * 2 ^ j`. -/
def compareScaled (a : Nat) (i : Int) (n : Nat) (j : Int) : Ordering :=
  compare (a * place 10 i.toNat * place 2 (-j).toNat) (n * place 2 j.toNat * place 10 (-i).toNat)

/-- The decimal lies among the reals that round to the number. -/
def Magnitude.readsBack (x : Magnitude) (d : Digits) : Bool :=
  let low := if x.narrowBelow then 4 * x.mantissa - 1 else 4 * x.mantissa - 2
  let high := 4 * x.mantissa + 2
  let closed := x.mantissa % 2 == 0
  let atLow := compareScaled d.digits d.exponent low (x.exponent - 2)
  let atHigh := compareScaled d.digits d.exponent high (x.exponent - 2)
  (atLow == .gt || (closed && atLow == .eq)) && (atHigh == .lt || (closed && atHigh == .eq))

/-- The number of decimal digits of a positive number. -/
def digitCount (n : Nat) : Nat := (Nat.toDigits 10 n).length

/-- The least `k` with `x < 10 ^ k`, for a magnitude other than zero. -/
def Magnitude.scale (x : Magnitude) : Int :=
  let num := x.mantissa * place 2 x.exponent.toNat
  let den := place 2 (-x.exponent).toNat
  if den ≤ num then digitCount (num / den) else 1 - digitCount ((den - 1) / num)

/-- The lower neighbour of a magnitude on the grid `10 ^ e`. -/
def Magnitude.floorOn (x : Magnitude) (e : Int) : Nat :=
  x.mantissa * place 2 x.exponent.toNat * place 10 (-e).toNat /
    (place 2 (-x.exponent).toNat * place 10 e.toNat)

/-- Neighbour of the magnitude on the grid `10 ^ e` that reads back: of two the
closer, of two equally close the upper. -/
def Magnitude.ofGrid? (x : Magnitude) (e : Int) : Option Digits :=
  let lower : Digits := ⟨x.floorOn e, e⟩
  let upper : Digits := ⟨x.floorOn e + 1, e⟩
  if x.readsBack lower then
    if x.readsBack upper &&
        compareScaled (2 * x.floorOn e + 1) e (2 * x.mantissa) x.exponent != .gt then
      some upper
    else some lower
  else if x.readsBack upper then some upper
  else none

theorem Magnitude.readsBack_ofGrid? {x : Magnitude} {e : Int} {d : Digits}
    (h : x.ofGrid? e = some d) : x.readsBack d = true := by
  unfold ofGrid? at h
  grind

/-- The exact decimal of a magnitude. -/
def Magnitude.exactDigits (x : Magnitude) : Digits :=
  if 0 ≤ x.exponent then ⟨x.mantissa * place 2 x.exponent.toNat, 0⟩
  else ⟨x.mantissa * place 5 (-x.exponent).toNat, x.exponent⟩

/-- The shortest decimal that reads back. Seventeen digits always suffice;
beyond them the exact decimal stands. -/
def Magnitude.shortest (x : Magnitude) : Digits :=
  if x.mantissa = 0 then ⟨0, 0⟩
  else
    ((List.range 17).findSome? fun n => x.ofGrid? (x.scale - (n + 1 : Nat))).getD x.exactDigits

/-- A decimal in positional notation: the digits, zeros up to the point, and a
fraction only where there is one. -/
def Digits.positional (d : Digits) : String :=
  let text := Nat.toDigits 10 d.digits
  if 0 ≤ d.exponent then
    String.ofList (text ++ List.replicate d.exponent.toNat '0')
  else
    let places := (-d.exponent).toNat
    let padded := List.replicate (places + 1 - text.length) '0' ++ text
    let fraction := ((padded.drop (padded.length - places)).reverse.dropWhile (· == '0')).reverse
    String.ofList (padded.take (padded.length - places) ++
      (if fraction.isEmpty then [] else '.' :: fraction))

/-- The shortest positional text of a number. -/
def plainText (x : Float) : String :=
  match Binary.ofFloat x with
  | .nan => "NaN"
  | .infinite negative => if negative then "-inf" else "inf"
  | .finite negative m => (if negative then "-" else "") ++ m.shortest.positional

end Decimal
end LiveProbe
