/-!
# Lossy decoding of UTF-8

Bytes are read as UTF-8. Every maximal part that cannot begin a well-formed
sequence is shown as one replacement character, so that decoding never fails.

**Algorithm.** The lead byte fixes the number of continuation bytes and the
range of the first of them; a sequence that breaks off is replaced as a whole
and decoding goes on at the byte that broke it.
-/

namespace LiveProbe
namespace Text

/-- The character that stands for an ill-formed part. -/
def replacement : Char := '\uFFFD'

/-- Continuation bytes other than the first lie in this range. -/
def isContinuation (b : UInt8) : Bool := 0x80 ≤ b && b ≤ 0xBF

/-- What a lead byte announces: its own bits, the number of continuation
bytes, and the range of the first of these. -/
structure Lead where
  bits : Nat
  more : Nat
  low : UInt8
  high : UInt8

/-- The lead bytes of well-formed sequences of two to four bytes. -/
def lead? (b : UInt8) : Option Lead :=
  if 0xC2 ≤ b && b ≤ 0xDF then some ⟨b.toNat - 0xC0, 1, 0x80, 0xBF⟩
  else if b == 0xE0 then some ⟨0, 2, 0xA0, 0xBF⟩
  else if b == 0xED then some ⟨0xD, 2, 0x80, 0x9F⟩
  else if 0xE1 ≤ b && b ≤ 0xEF then some ⟨b.toNat - 0xE0, 2, 0x80, 0xBF⟩
  else if b == 0xF0 then some ⟨0, 3, 0x90, 0xBF⟩
  else if 0xF1 ≤ b && b ≤ 0xF3 then some ⟨b.toNat - 0xF0, 3, 0x80, 0xBF⟩
  else if b == 0xF4 then some ⟨4, 3, 0x80, 0x8F⟩
  else none

/-- Reads up to `more` continuation bytes onto `bits`; `none` stands for a
sequence that breaks off. The bytes that were read are consumed either way. -/
def continuation (bits : Nat) : (more : Nat) → (low high : UInt8) → List UInt8 →
    Option Char × List UInt8
  | 0, _, _, bs => (some (Char.ofNat bits), bs)
  | _ + 1, _, _, [] => (none, [])
  | more + 1, low, high, b :: bs =>
    if low ≤ b && b ≤ high then
      continuation (bits * 64 + (b.toNat - 0x80)) more 0x80 0xBF bs
    else (none, b :: bs)

theorem continuation_length_le (bits more : Nat) (low high : UInt8) (bs : List UInt8) :
    (continuation bits more low high bs).2.length ≤ bs.length := by
  fun_induction continuation bits more low high bs with
  | case1 => exact Nat.le_refl _
  | case2 => exact Nat.le_refl _
  | case3 _ _ _ _ _ _ _ ih => exact Nat.le_succ_of_le ih
  | case4 => exact Nat.le_refl _

/-- One character off the front of a non-empty byte string. -/
def decodeOne (b : UInt8) (bs : List UInt8) : Option Char × List UInt8 :=
  if b < 0x80 then (some (Char.ofNat b.toNat), bs)
  else
    match lead? b with
    | none => (none, bs)
    | some l => continuation l.bits l.more l.low l.high bs

theorem decodeOne_length_le (b : UInt8) (bs : List UInt8) :
    (decodeOne b bs).2.length ≤ bs.length := by
  unfold decodeOne
  split
  · exact Nat.le_refl _
  · split
    · exact Nat.le_refl _
    · exact continuation_length_le ..

/-- The characters of a byte string, ill-formed parts replaced. -/
def lossyChars (acc : List Char) : List UInt8 → List Char
  | [] => acc.reverse
  | b :: bs => lossyChars ((decodeOne b bs).1.getD replacement :: acc) (decodeOne b bs).2
termination_by bs => bs.length
decreasing_by
  have := decodeOne_length_le b bs
  simp only [List.length_cons]
  omega

/-- The text of a byte string, ill-formed parts replaced. -/
def lossy (bytes : List UInt8) : String := String.ofList (lossyChars [] bytes)

/-- The text of a byte string, if it is well formed throughout. -/
def strictChars? (acc : List Char) : List UInt8 → Option (List Char)
  | [] => some acc.reverse
  | b :: bs =>
    match (decodeOne b bs).1 with
    | none => none
    | some c => strictChars? (c :: acc) (decodeOne b bs).2
termination_by bs => bs.length
decreasing_by
  have := decodeOne_length_le b bs
  simp only [List.length_cons]
  omega

/-- The text of a byte string, if it is well formed throughout. -/
def strict? (bytes : List UInt8) : Option String :=
  (strictChars? [] bytes).map String.ofList

end Text
end LiveProbe
