import LiveProbe.Decimal.Fixed
import LiveProbe.Json.Decode

/-!
# Reports

The parts of which descriptions in JSON are made. Numbers that may exceed what
readers of JSON keep exact are written as texts.
-/

namespace LiveProbe
namespace Json

/-- A number of moderate size. -/
def ofNat (n : Nat) : Json := .int n

/-- An integer of any size, as a text. -/
def decimal (n : Int) : Json := ofString (toString n)

/-- A floating-point number, as a text. -/
def ofFloat (x : Float) : Json := ofString (Decimal.valueText x)

/-- A value, or null where there is none. -/
def ofOption {α : Type} (write : α → Json) : Option α → Json
  | some x => write x
  | none => .null

/-- A list. -/
def ofList {α : Type} (write : α → Json) (xs : List α) : Json := .array (xs.map write)

/-- A list of texts. -/
def ofStrings (xs : List String) : Json := ofList ofString xs

/-- A fault under the name of its cause. -/
def fault (cause message : String) : Json :=
  ofMembers [("error", ofString cause), ("message", ofString message)]

end Json
end LiveProbe
