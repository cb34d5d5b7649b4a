/-!
# Identifiers

Consecutive numbers of 64 bits, and identifiers of 128 bits.

**Results.**
* `next_fst`, `next_snd`: the numbers are consecutive, and zero follows the largest.
-/

namespace LiveProbe

/-- A source of consecutive numbers. -/
structure IdGenerator where
  current : UInt64
  deriving DecidableEq, Repr

namespace IdGenerator

/-- The next number, and the source behind it. -/
def next (g : IdGenerator) : UInt64 × IdGenerator := (g.current, ⟨g.current + 1⟩)

/-- The next `count` numbers. -/
def nextMany (g : IdGenerator) : Nat → List UInt64 × IdGenerator
  | 0 => ([], g)
  | count + 1 =>
    let (ids, g') := nextMany g.next.2 count
    (g.next.1 :: ids, g')

theorem next_fst (g : IdGenerator) : g.next.1 = g.current := rfl

theorem next_snd (g : IdGenerator) :
    g.next.2.current.toNat = (g.current.toNat + 1) % UInt64.size := by
  simp [next, UInt64.toNat_add]

end IdGenerator

namespace Id128

/-- The lowest `digits` hexadecimal digits of a number. -/
def hexDigits : Nat → Nat → List Char
  | 0, _ => []
  | digits + 1, n => hexDigits digits (n / 16) ++ [Nat.digitChar (n % 16)]

/-- The thirty-two lower-case hexadecimal digits of an identifier. -/
def render (n : Nat) : String := String.ofList (hexDigits 32 n)

/-- The text has the form of an identifier. -/
def isRendered (s : String) : Bool :=
  s.length == 32 && s.toList.all fun c => c.isDigit || ('a' ≤ c && c ≤ 'f')

end Id128
end LiveProbe
