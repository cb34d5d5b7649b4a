/-!
# Decimal numerals

Digits, their value, and the reading of whole numbers within given bounds.

**Results.**
* `readInt_mem`: an accepted number lies within the bounds.
-/

namespace LiveProbe
namespace Text

/-- The ASCII digits. -/
def isDigit (c : Char) : Bool := '0' ≤ c && c ≤ '9'

/-- The value of a digit. -/
def digitValue (c : Char) : Nat := c.toNat - '0'.toNat

/-- The value of a row of digits, most significant first. -/
def numeralValue (cs : List Char) : Nat :=
  cs.foldl (fun n c => n * 10 + digitValue c) 0

/-- Reasons why a text is no whole number within bounds. -/
inductive NumeralFault
  | empty
  | invalidDigit
  | tooLarge
  | tooSmall
  deriving DecidableEq, Repr

/-- The wording of a fault. -/
def NumeralFault.message : NumeralFault → String
  | .empty => "cannot parse integer from empty string"
  | .invalidDigit => "invalid digit found in string"
  | .tooLarge => "number too large to fit in target type"
  | .tooSmall => "number too small to fit in target type"

/-- Inclusive bounds of a whole number. -/
structure Bounds where
  low : Int
  high : Int

/-- Signed numbers of 64 bits. -/
def Bounds.signed64 : Bounds := ⟨-0x8000000000000000, 0x7FFFFFFFFFFFFFFF⟩

/-- Unsigned numbers of 64 bits. -/
def Bounds.unsigned64 : Bounds := ⟨0, 0xFFFFFFFFFFFFFFFF⟩

/-- Unsigned numbers of 32 bits. -/
def Bounds.unsigned32 : Bounds := ⟨0, 0xFFFFFFFF⟩

/-- A number within bounds, or the side on which it lies outside. -/
def Bounds.check (b : Bounds) (n : Int) : Except NumeralFault Int :=
  if b.high < n then .error .tooLarge
  else if n < b.low then .error .tooSmall
  else .ok n

/-- Appends digits to the number read so far, away from zero in the direction
of `sign`. The first character that is no digit or that leads out of the
bounds decides the fault. -/
def Bounds.extend (b : Bounds) (sign : Int) (n : Int) : List Char → Except NumeralFault Int
  | [] => .ok n
  | c :: cs =>
    if isDigit c then
      match b.check (n * 10 + sign * digitValue c) with
      | .ok m => b.extend sign m cs
      | .error e => .error e
    else .error .invalidDigit

/-- The number that a non-empty row of digits extends zero to. -/
def Bounds.readDigits (b : Bounds) (sign : Int) (cs : List Char) : Except NumeralFault Int :=
  if cs.isEmpty then .error .invalidDigit else b.extend sign 0 cs

/-- Reads a whole number: an optional sign and at least one digit. A minus
sign is a sign only where negative numbers are within the bounds. -/
def readInt (b : Bounds) : List Char → Except NumeralFault Int
  | [] => .error .empty
  | '+' :: cs => b.readDigits 1 cs
  | '-' :: cs => if b.low < 0 then b.readDigits (-1) cs else .error .invalidDigit
  | c :: cs => b.readDigits 1 (c :: cs)

/-- Zero lies within the bounds. -/
def Bounds.HasZero (b : Bounds) : Prop := b.low ≤ 0 ∧ 0 ≤ b.high

theorem Bounds.check_mem {b : Bounds} {n m : Int} (h : b.check n = .ok m) :
    b.low ≤ m ∧ m ≤ b.high := by
  unfold Bounds.check at h
  split at h
  · cases h
  · split at h
    · cases h
    · injection h with h
      omega

theorem Bounds.extend_mem {b : Bounds} {sign n m : Int} {cs : List Char}
    (hn : b.low ≤ n ∧ n ≤ b.high) (h : b.extend sign n cs = .ok m) :
    b.low ≤ m ∧ m ≤ b.high := by
  induction cs generalizing n with
  | nil =>
    injection h with h
    exact h ▸ hn
  | cons c cs ih =>
    unfold Bounds.extend at h
    split at h
    · split at h
      · next hc => exact ih (check_mem hc) h
      · cases h
    · cases h

theorem Bounds.readDigits_mem {b : Bounds} (hb : b.HasZero) {sign n : Int} {cs : List Char}
    (h : b.readDigits sign cs = .ok n) : b.low ≤ n ∧ n ≤ b.high := by
  unfold Bounds.readDigits at h
  split at h
  · cases h
  · exact extend_mem hb h

theorem readInt_mem {b : Bounds} (hb : b.HasZero) {cs : List Char} {n : Int}
    (h : readInt b cs = .ok n) : b.low ≤ n ∧ n ≤ b.high := by
  unfold readInt at h
  split at h
  · cases h
  · exact Bounds.readDigits_mem hb h
  · split at h
    · exact Bounds.readDigits_mem hb h
    · cases h
  · exact Bounds.readDigits_mem hb h

end Text
end LiveProbe
