import LiveProbe.Json.Basic
import LiveProbe.SortedMap
import LiveProbe.Text.Numeral

/-!
# Records in JSON

Reading of records, lists, maps and names from JSON values.

**Format.** A record is an object or an array of its fields in order. In an object
a field stands at most once and unknown members are ignored; in an array the last
fields may be missing.
-/

namespace LiveProbe
namespace Json

/-- The fields of a record under their names, in order; `none` inside for a field
that is missing. -/
def fields? (names : List String) : Json → Option (List (Option Json))
  | .object members =>
    if members.any fun m => m.1.isNone then none
    else names.mapM fun name =>
      match membersNamed name members with
      | [] => some none
      | [value] => some (some value)
      | _ => none
  | .array items =>
    if items.length ≤ names.length then
      some (items.map some ++ List.replicate (names.length - items.length) none)
    else none
  | _ => none

/-- A field that must be there. -/
def required {α : Type} (read : Json → Option α) : Option Json → Option α
  | some j => read j
  | none => none

/-- A field with a value for its absence. -/
def orElse {α : Type} (missing : α) (read : Json → Option α) : Option Json → Option α
  | some j => read j
  | none => some missing

/-- A field whose value may also be null. -/
def nullable {α : Type} (read : Json → Option α) : Option Json → Option (Option α)
  | none | some .null => some none
  | some j => (read j).map some

/-- A text. -/
def text? : Json → Option String
  | .str (some s) => some s
  | _ => none

/-- A truth value. -/
def bool? : Json → Option Bool
  | .bool b => some b
  | _ => none

/-- An integer within bounds. -/
def intIn? (b : Text.Bounds) : Json → Option Int
  | .int n => if b.low ≤ n ∧ n ≤ b.high then some n else none
  | _ => none

/-- An unsigned integer of 64 bits. -/
def nat64? (j : Json) : Option Nat := (intIn? .unsigned64 j).map Int.toNat

/-- An unsigned integer of 32 bits. -/
def word32? (j : Json) : Option UInt32 := (intIn? .unsigned32 j).map fun n => UInt32.ofNat n.toNat

/-- A list. -/
def list? {α : Type} (read : Json → Option α) : Json → Option (List α)
  | .array items => items.mapM read
  | _ => none

/-- The entries of a map. -/
def entries? {α : Type} (read : Json → Option α) : Json → Option (List (String × α))
  | .object members => members.mapM fun m => do return (← m.1, ← read m.2)
  | _ => none

/-- A map; of several members with one key the last counts. -/
def map? {α : Type} (read : Json → Option α) (j : Json) : Option (SortedMap α) :=
  (entries? read j).map SortedMap.ofList

/-- One of several names, either alone or as the only member of an object, with
null for its value. -/
def named? {α : Type} (read : String → Option α) : Json → Option α
  | .str (some s) => read s
  | .object [(some s, .null)] => read s
  | _ => none

/-- A map as an object. -/
def ofMap {α : Type} (write : α → Json) (m : SortedMap α) : Json :=
  ofMembers (m.entries.map fun e => (e.1, write e.2))

/-- A member that is left out where there is no value. -/
def optional {α : Type} (name : String) (write : α → Json) (x : Option α) :
    List (String × Json) :=
  match x with
  | some x => [(name, write x)]
  | none => []

end Json
end LiveProbe
