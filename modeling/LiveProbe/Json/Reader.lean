import LiveProbe.Json.Quoted
import LiveProbe.Text.Numeral

/-!
# Reading JSON

The values of texts in strict JSON: no trailing commas, no leading zeros, no
text behind the value.

**Results.**
* `Read.shorter`: a value takes at least one character, which bounds the
  recursion by the length of the text.
-/

namespace LiveProbe
namespace Json

open Text (isDigit numeralValue)

/-- Something read off the front of a text. -/
structure Read (α : Type) (cs : List Char) where
  value : α
  rest : List Char
  shorter : rest.length < cs.length

/-- The blanks of JSON. -/
def isSpace (c : Char) : Bool := c == ' ' || c == '\t' || c == '\n' || c == '\r'

/-- The characters from the first that is no blank. -/
def skipSpace (cs : List Char) : List Char := cs.dropWhile isSpace

theorem skipSpace_length (cs : List Char) : (skipSpace cs).length ≤ cs.length :=
  (List.dropWhile_sublist isSpace).length_le

/-- The exponent part of a number, or nothing where there is no mark. -/
def exponentPart? (cs : List Char) : Option (List Char) :=
  let signed (lead ds : List Char) :=
    if (ds.takeWhile isDigit).isEmpty then none else some (lead ++ ds.takeWhile isDigit)
  match cs with
  | 'e' :: '+' :: ds => signed ['e', '+'] ds
  | 'e' :: '-' :: ds => signed ['e', '-'] ds
  | 'e' :: ds => signed ['e'] ds
  | 'E' :: '+' :: ds => signed ['E', '+'] ds
  | 'E' :: '-' :: ds => signed ['E', '-'] ds
  | 'E' :: ds => signed ['E'] ds
  | _ => some []

/-- The fraction part of a number, or nothing where there is no point. -/
def fractionPart? : List Char → Option (List Char)
  | '.' :: ds =>
    if (ds.takeWhile isDigit).isEmpty then none else some ('.' :: ds.takeWhile isDigit)
  | _ => some []

/-- The characters of an unsigned number at the front: its whole part, and what
makes it no integer. -/
def unsignedParts? (cs : List Char) : Option (List Char × List Char) :=
  let whole := cs.takeWhile isDigit
  match whole with
  | [] => none
  | '0' :: _ :: _ => none
  | _ => do
    let behind := cs.dropWhile isDigit
    let fraction ← fractionPart? behind
    let exponent ← exponentPart? (behind.drop fraction.length)
    return (whole, fraction ++ exponent)

/-- More digits than an integer of 64 bits has. -/
def integerDigits : Nat := 21

/-- The number at the front, and the count of its characters. Minus zero is no
integer, and one too long for any use keeps its spelling. -/
def readNumber (cs : List Char) : Option (Json × Nat) :=
  let (negative, ds) := match cs with
    | '-' :: ds => (true, ds)
    | ds => (false, ds)
  match unsignedParts? ds with
  | none => none
  | some (whole, more) =>
    let length := whole.length + more.length + (if negative then 1 else 0)
    if more.isEmpty && whole.length < integerDigits && !(negative && whole == ['0']) then
      let n : Int := numeralValue whole
      some (.int (if negative then -n else n), length)
    else some (.real (String.ofList (cs.take length)), length)

/-- Drops a word off the front. -/
def word? : List Char → List Char → Option (List Char)
  | [], cs => some cs
  | w :: ws, c :: cs => if w = c then word? ws cs else none
  | _ :: _, [] => none

theorem word?_length {ws cs rest : List Char} (h : word? ws cs = some rest) :
    rest.length + ws.length = cs.length := by
  induction ws generalizing cs with
  | nil => simp_all [word?]
  | cons w ws ih =>
    cases cs with
    | nil => simp [word?] at h
    | cons c cs =>
      simp only [word?] at h
      split at h
      · have := ih h
        simp only [List.length_cons]
        omega
      · cases h

theorem readWord_length {word cs rest : List Char} (h : word? word cs = some rest)
    (hw : word ≠ []) : rest.length < cs.length := by
  have := word?_length h
  have := List.length_pos_iff.2 hw
  omega

/-- A literal name with its value. -/
def readWord (word : List Char) (value : Json) (cs : List Char) (hw : word ≠ []) :
    Option (Read Json cs) :=
  match h : word? word cs with
  | none => none
  | some rest => some ⟨value, rest, readWord_length h hw⟩

/-- A number. -/
def readNumeric : (cs : List Char) → Option (Read Json cs)
  | [] => none
  | c :: cs =>
    match readNumber (c :: cs) with
    | some (value, more + 1) => some ⟨value, cs.drop more, by
        rw [List.length_drop, List.length_cons]; omega⟩
    | _ => none

/-- A quoted text, from the opening quote on. -/
def readKey : (cs : List Char) → Option (Read JsonText cs)
  | '"' :: cs =>
    match h : readQuoted (some []) cs with
    | none => none
    | some (text, rest) => some ⟨text, rest, by
        have := readQuoted_length h
        simp only [List.length_cons]; omega⟩
  | _ => none

/-- Drops one character off the front, blanks before it included. -/
def readMark (mark : Char) (cs : List Char) : Option { r : List Char // r.length < cs.length } :=
  match h : skipSpace cs with
  | c :: rest =>
    if c = mark then some ⟨rest, by
      have := skipSpace_length cs
      simp only [h, List.length_cons] at this
      omega⟩
    else none
  | [] => none

mutual

/-- The value at the front, blanks before it included. -/
def readValue (cs : List Char) : Option (Read Json cs) :=
  match h : skipSpace cs with
  | [] => none
  | c :: rest =>
    have bound : rest.length < cs.length := by
      have := skipSpace_length cs
      simp only [h, List.length_cons] at this
      omega
    have widen {α : Type} (r : Read α (c :: rest)) : r.rest.length < cs.length := by
      have := r.shorter
      simp only [List.length_cons] at this
      omega
    if c = '"' then do
      let text ← readKey (c :: rest)
      return ⟨.str text.value, text.rest, widen text⟩
    else if c = '[' then do
      let items ← match readMark ']' rest with
        | some after => some ⟨[], after.val, after.property⟩
        | none => readItems [] rest rest (Nat.le_refl _)
      return ⟨.array items.value, items.rest, Nat.lt_trans items.shorter bound⟩
    else if c = '\x7b' then do
      let members ← match readMark '\x7d' rest with
        | some after => some ⟨[], after.val, after.property⟩
        | none => readMembers [] rest rest (Nat.le_refl _)
      return ⟨.object members.value, members.rest, Nat.lt_trans members.shorter bound⟩
    else do
      let found ← match c with
        | 'n' => readWord ['n', 'u', 'l', 'l'] .null (c :: rest) (by simp)
        | 't' => readWord ['t', 'r', 'u', 'e'] (.bool true) (c :: rest) (by simp)
        | 'f' => readWord ['f', 'a', 'l', 's', 'e'] (.bool false) (c :: rest) (by simp)
        | _ => readNumeric (c :: rest)
      return ⟨found.value, found.rest, widen found⟩
termination_by cs.length * 2

/-- At least one item and the closing bracket; the items before are in `acc`,
last first. They were read off the front of `origin`. -/
def readItems (acc : List Json) (origin cs : List Char) (h : cs.length ≤ origin.length) :
    Option (Read (List Json) origin) := do
  let item ← readValue cs
  match readMark ',' item.rest with
  | some after =>
    readItems (item.value :: acc) origin after.val (by
      have := item.shorter
      have := after.property
      omega)
  | none => do
    let after ← readMark ']' item.rest
    return ⟨(item.value :: acc).reverse, after.val, by
      have := item.shorter
      have := after.property
      omega⟩
termination_by cs.length * 2 + 1
decreasing_by
  · omega
  · have := item.shorter
    have := after.property
    omega

/-- At least one member and the closing brace; the members before are in `acc`,
last first. They were read off the front of `origin`. -/
def readMembers (acc : List (JsonText × Json)) (origin cs : List Char)
    (h : cs.length ≤ origin.length) : Option (Read (List (JsonText × Json)) origin) := do
  have blanks := skipSpace_length cs
  let key ← readKey (skipSpace cs)
  let colon ← readMark ':' key.rest
  let value ← readValue colon.val
  have bound : value.rest.length + 2 < cs.length := by
    have := key.shorter
    have := colon.property
    have := value.shorter
    omega
  match readMark ',' value.rest with
  | some after =>
    readMembers ((key.value, value.value) :: acc) origin after.val (by
      have := after.property
      omega)
  | none => do
    let after ← readMark '\x7d' value.rest
    return ⟨((key.value, value.value) :: acc).reverse, after.val, by
      have := after.property
      omega⟩
termination_by cs.length * 2 + 1
decreasing_by
  · have := key.shorter
    have := colon.property
    omega
  · have := after.property
    omega

end

/-- The value of a text. -/
def parse? (text : String) : Option Json := do
  let r ← readValue text.toList
  if (skipSpace r.rest).isEmpty then some r.value else none

end Json
end LiveProbe
