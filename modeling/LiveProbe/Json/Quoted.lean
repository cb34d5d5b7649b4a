import LiveProbe.Json.Basic

/-!
# JSON strings

Escaping of a text inside quotes, and its reading.

**Format.** Written are only the escapes of the quote, the backslash and the
control characters below the blank; all other characters stand for themselves.
Read are all escapes of JSON. Two escapes of paired surrogates are one
character, and an escape of an unpaired one leaves the literal without a text.
-/

namespace LiveProbe
namespace Json

/-- Lower-case hexadecimal digits. -/
def hexDigit (n : Nat) : Char := Nat.digitChar (n % 16)

/-- The escape of a character, where one is needed. -/
def escape? (c : Char) : Option (List Char) :=
  if c = '"' then some ['\\', '"']
  else if c = '\\' then some ['\\', '\\']
  else if c = '\x08' then some ['\\', 'b']
  else if c = '\t' then some ['\\', 't']
  else if c = '\n' then some ['\\', 'n']
  else if c = '\x0c' then some ['\\', 'f']
  else if c = '\r' then some ['\\', 'r']
  else if c.toNat < 0x20 then
    some ['\\', 'u', '0', '0', hexDigit (c.toNat / 16), hexDigit c.toNat]
  else none

/-- A text as it stands between the quotes. -/
def escapeChars (cs : List Char) : List Char :=
  cs.flatMap fun c => (escape? c).getD [c]

/-- A text in quotes. -/
def quote (s : String) : String :=
  if s.toList.all fun c => (escape? c).isNone then "\"" ++ s ++ "\""
  else "\"" ++ String.ofList (escapeChars s.toList) ++ "\""

/-- The value of a hexadecimal digit. -/
def hexValue? (c : Char) : Option Nat :=
  if '0' ≤ c && c ≤ '9' then some (c.toNat - '0'.toNat)
  else if 'a' ≤ c && c ≤ 'f' then some (c.toNat - 'a'.toNat + 10)
  else if 'A' ≤ c && c ≤ 'F' then some (c.toNat - 'A'.toNat + 10)
  else none

/-- The 16-bit unit that four hexadecimal digits spell. -/
def unit? (a b c d : Char) : Option Nat := do
  return ((← hexValue? a) * 16 + (← hexValue? b)) * 256 + ((← hexValue? c) * 16 + (← hexValue? d))

/-- The first unit of a pair. -/
def isLeading (u : Nat) : Bool := 0xD800 ≤ u && u < 0xDC00

/-- The second unit of a pair. -/
def isTrailing (u : Nat) : Bool := 0xDC00 ≤ u && u < 0xE000

/-- The trailing unit at the front, as an escape, and what follows it. -/
def trailing? : List Char → Option (Nat × List Char)
  | '\\' :: 'u' :: a :: b :: c :: d :: cs =>
    match unit? a b c d with
    | some u => if isTrailing u then some (u, cs) else none
    | none => none
  | _ => none

/-- The character that a pair of units stands for. -/
def pairChar (leading trailing : Nat) : Char :=
  Char.ofNat (0x10000 + (leading - 0xD800) * 0x400 + (trailing - 0xDC00))

/-- The characters that one escape stands for, read behind the backslash, and
the rest. A `none` for the character is an unpaired surrogate. -/
def readEscape : List Char → Option (Option Char × List Char)
  | '"' :: cs => some (some '"', cs)
  | '\\' :: cs => some (some '\\', cs)
  | '/' :: cs => some (some '/', cs)
  | 'b' :: cs => some (some '\x08', cs)
  | 'f' :: cs => some (some '\x0c', cs)
  | 'n' :: cs => some (some '\n', cs)
  | 'r' :: cs => some (some '\r', cs)
  | 't' :: cs => some (some '\t', cs)
  | 'u' :: a :: b :: c :: d :: cs =>
    match unit? a b c d with
    | none => none
    | some u =>
      if isLeading u then
        match trailing? cs with
        | some (v, rest) => some (some (pairChar u v), rest)
        | none => some (none, cs)
      else if isTrailing u then some (none, cs)
      else some (some (Char.ofNat u), cs)
  | _ => none

theorem trailing?_length {cs rest : List Char} {u : Nat} (h : trailing? cs = some (u, rest)) :
    rest.length < cs.length := by
  unfold trailing? at h
  grind

theorem readEscape_length {cs rest : List Char} {c : Option Char}
    (h : readEscape cs = some (c, rest)) : rest.length < cs.length := by
  unfold readEscape at h
  split at h
  case h_9 =>
    split at h
    · cases h
    · split at h
      · split at h
        · next hv =>
          have := trailing?_length hv
          simp only [List.length_cons]
          grind
        · grind
      · grind
  all_goals grind

/-- Joins a character to the text read before, last character first. -/
def pushChar (acc : Option (List Char)) (c : Option Char) : Option (List Char) :=
  match acc, c with
  | some cs, some c => some (c :: cs)
  | _, _ => none

/-- The literal up to the closing quote, and the rest. Bare control characters
are refused. -/
def readQuoted (acc : Option (List Char)) : List Char → Option (JsonText × List Char)
  | [] => none
  | '"' :: cs => some (acc.map fun cs => String.ofList cs.reverse, cs)
  | '\\' :: cs =>
    match _h : readEscape cs with
    | none => none
    | some (c, rest) => readQuoted (pushChar acc c) rest
  | c :: cs => if c.toNat < 0x20 then none else readQuoted (pushChar acc (some c)) cs
termination_by cs => cs.length
decreasing_by
  · have := readEscape_length _h
    simp only [List.length_cons]; omega
  · simp

theorem readQuoted_length {acc : Option (List Char)} {cs rest : List Char} {t : JsonText}
    (h : readQuoted acc cs = some (t, rest)) : rest.length < cs.length := by
  fun_induction readQuoted acc cs <;> grind [→ readEscape_length]

end Json
end LiveProbe
