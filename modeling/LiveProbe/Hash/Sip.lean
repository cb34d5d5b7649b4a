/-!
# Keyed hash of byte strings

The hash with one mixing round per block of eight bytes and three rounds at the
end, under the key zero.
-/

namespace LiveProbe
namespace Hash

/-- The four words of the state. -/
structure SipState where
  v0 : UInt64
  v1 : UInt64
  v2 : UInt64
  v3 : UInt64

/-- Rotation to the left. -/
def rotate (x : UInt64) (n : UInt64) : UInt64 := (x <<< n) ||| (x >>> (64 - n))

namespace SipState

/-- The state under the key zero. -/
def initial : SipState :=
  ⟨0x736f6d6570736575, 0x646f72616e646f6d, 0x6c7967656e657261, 0x7465646279746573⟩

/-- One mixing round. -/
def round (s : SipState) : SipState :=
  let v0 := s.v0 + s.v1
  let v1 := rotate s.v1 13 ^^^ v0
  let v0 := rotate v0 32
  let v2 := s.v2 + s.v3
  let v3 := rotate s.v3 16 ^^^ v2
  let v0 := v0 + v3
  let v3 := rotate v3 21 ^^^ v0
  let v2 := v2 + v1
  let v1 := rotate v1 17 ^^^ v2
  let v2 := rotate v2 32
  ⟨v0, v1, v2, v3⟩

/-- Takes in a block. -/
def absorb (s : SipState) (block : UInt64) : SipState :=
  let mixed := ({ s with v3 := s.v3 ^^^ block } : SipState).round
  { mixed with v0 := mixed.v0 ^^^ block }

/-- The hash of what was taken in. -/
def finish (s : SipState) : UInt64 :=
  let t := ({ s with v2 := s.v2 ^^^ 0xff } : SipState).round.round.round
  t.v0 ^^^ t.v1 ^^^ t.v2 ^^^ t.v3

end SipState

/-- Bytes as a number, the least significant first. -/
def littleEndian (bytes : List UInt8) : UInt64 :=
  bytes.foldr (fun b n => n <<< 8 ||| b.toUInt64) 0

/-- Takes in all full blocks, and at last the rest with the length in the top
byte. -/
def absorbAll (length : Nat) (s : SipState) : List UInt8 → SipState
  | a :: b :: c :: d :: e :: f :: g :: h :: bytes =>
    absorbAll length (s.absorb (littleEndian [a, b, c, d, e, f, g, h])) bytes
  | rest => s.absorb ((UInt64.ofNat length <<< 56) ||| littleEndian rest)

/-- The hash of a byte string. -/
def sip (bytes : List UInt8) : UInt64 :=
  (absorbAll bytes.length .initial bytes).finish

/-- Sixteen hexadecimal digits. -/
def hex64 (x : UInt64) : String :=
  let ds := Nat.toDigits 16 x.toNat
  String.ofList (List.replicate (16 - ds.length) '0' ++ ds)

end Hash
end LiveProbe
