import LiveProbe.Decimal.Binary
import LiveProbe.Text.Numeral

/-!
# Reading decimals

The grammar of decimal floating-point texts and the binary number nearest to
the decimal read. The grammar has an optional sign, digits with an optional
point among or around them, and an optional exponent; infinity and not-a-number
are spelled out in either case.

**Algorithm.** The nearest number is found in exact arithmetic. Texts may be long:
an exponent stops growing once it is larger than any that digits of usual length
could make up for, and of the digits only so many are kept as can decide a rounding.

**Results.**
* `exponentValue_lt`: an exponent is less than ten times the limit.
* `length_decisive_le`: a bounded number of digits is kept.
-/

namespace LiveProbe
namespace Decimal

open Text (isDigit digitValue numeralValue)

/-- A decimal text taken apart: `whole . fraction e exponent`. -/
structure Parts where
  whole : List Char
  fraction : List Char
  exponent : Int
  deriving DecidableEq, Repr

/-- The number nearest to `n * 10 ^ e`. Exponents far outside the range are
settled without computing the power. -/
def ofScaled (negative : Bool) (n : Nat) (e : Int) : Float :=
  let size : Int := (Nat.toDigits 10 n).length
  if n = 0 then nearest negative 0 1
  else if 400 < e + size then nearest negative (place 2 1100) 1
  else if e + size < -400 then nearest negative 0 1
  else nearest negative (n * place 10 e.toNat) (place 10 (-e).toNat)

/-- More digits than any number halfway between two neighbours has. -/
def decisiveDigits : Nat := 800

/-- The digits that decide the nearest number. Those behind them count only by
whether one of them is not zero. -/
def decisive (ds : List Char) : List Char :=
  if ds.length ≤ decisiveDigits then ds
  else
    ds.take decisiveDigits ++ [if (ds.drop decisiveDigits).all (· == '0') then '0' else '1']

theorem length_decisive_le (ds : List Char) : (decisive ds).length ≤ decisiveDigits + 1 := by
  unfold decisive
  split
  · omega
  · simp only [List.length_append, List.length_take, List.length_singleton]
    omega

/-- The number nearest to the decimal. -/
def Parts.toFloat (negative : Bool) (p : Parts) : Float :=
  let digits := (p.whole ++ p.fraction).dropWhile (· == '0')
  let kept := decisive digits
  ofScaled negative (numeralValue kept)
    (p.exponent - p.fraction.length + (digits.length - kept.length : Nat))

/-- The value from which on an exponent does not grow. -/
def exponentLimit : Nat := 65536

/-- One more digit of an exponent, which does not count behind the limit. -/
def extendExponent (n : Nat) (c : Char) : Nat :=
  if n < exponentLimit then n * 10 + digitValue c else n

/-- The value of the digits of an exponent. -/
def exponentValue (ds : List Char) : Nat := ds.foldl extendExponent 0

theorem extendExponent_lt {n : Nat} {c : Char} (hn : n < 10 * exponentLimit)
    (hc : isDigit c = true) : extendExponent n c < 10 * exponentLimit := by
  have h9 : c.toNat ≤ 57 := by
    simp only [isDigit, Bool.and_eq_true, decide_eq_true_eq] at hc
    exact hc.2
  unfold extendExponent
  split
  · next h =>
    have : digitValue c ≤ 9 := Nat.sub_le_of_le_add h9
    omega
  · exact hn

theorem exponentValue_lt {ds : List Char} (h : ∀ c ∈ ds, isDigit c = true) :
    exponentValue ds < 10 * exponentLimit := by
  have step : ∀ n, n < 10 * exponentLimit → ds.foldl extendExponent n < 10 * exponentLimit := by
    induction ds with
    | nil => exact fun _ hn => hn
    | cons c cs ih =>
      intro n hn
      rw [List.foldl_cons]
      exact ih (fun d hd => h d (List.mem_cons_of_mem _ hd)) _
        (extendExponent_lt hn (h c List.mem_cons_self))
  exact step 0 (by decide)

/-- An exponent: a mark, an optional sign and at least one digit, or nothing. -/
def readExponent : List Char → Option Int
  | [] => some 0
  | mark :: cs =>
    if mark == 'e' || mark == 'E' then
      let (negative, ds) := match cs with
        | '-' :: ds => (true, ds)
        | '+' :: ds => (false, ds)
        | ds => (false, ds)
      if ds.isEmpty || !ds.all isDigit then none
      else some (if negative then -(exponentValue ds : Int) else exponentValue ds)
    else none

/-- The parts of an unsigned decimal text with at least one digit. -/
def readParts (cs : List Char) : Option Parts :=
  let whole := cs.takeWhile isDigit
  let rest := cs.dropWhile isDigit
  let (fraction, rest) := match rest with
    | '.' :: ds => (ds.takeWhile isDigit, ds.dropWhile isDigit)
    | ds => ([], ds)
  if whole.isEmpty && fraction.isEmpty then none
  else (readExponent rest).map fun e => ⟨whole, fraction, e⟩

/-- An unsigned text: infinity, not-a-number or a decimal. -/
def readUnsigned (negative : Bool) (cs : List Char) : Option Float :=
  let word := cs.map Char.toLower
  let sign : UInt64 := if negative then 0x8000000000000000 else 0
  if word == "inf".toList || word == "infinity".toList then
    some (Float.ofBits (sign ||| 0x7FF0000000000000))
  else if word == "nan".toList then some (Float.ofBits (sign ||| 0x7FF8000000000000))
  else (readParts cs).map (Parts.toFloat negative)

/-- Reads a floating-point text. -/
def readFloat : List Char → Option Float
  | '-' :: cs => readUnsigned true cs
  | '+' :: cs => readUnsigned false cs
  | cs => readUnsigned false cs

end Decimal
end LiveProbe
