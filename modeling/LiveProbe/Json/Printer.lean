import LiveProbe.Json.Quoted

/-!
# Writing JSON

Compact texts: no blanks, members in order.

**Algorithm.** A text is written behind what has been written before it, so that
the time is that of writing each character once.

**Results.**
* `renderOnto_eq`: what is written does not depend on what stands before it.
-/

namespace LiveProbe
namespace Json

mutual

/-- Writes the compact text of a value behind `acc`. -/
def renderOnto (acc : String) : Json → String
  | .null => acc ++ "null"
  | .bool value => acc ++ if value then "true" else "false"
  | .int value => acc ++ toString value
  | .real spelling => acc ++ spelling
  | .str text => acc ++ quote (text.getD "")
  | .array items => renderItems (acc ++ "[") "" items ++ "]"
  | .object members => renderMembers (acc ++ "\x7b") "" members ++ "\x7d"

/-- Writes items behind `acc`, the first behind `mark` and the others behind commas. -/
def renderItems (acc mark : String) : List Json → String
  | [] => acc
  | item :: items => renderItems (renderOnto (acc ++ mark) item) "," items

/-- Writes members behind `acc`, the first behind `mark` and the others behind commas. -/
def renderMembers (acc mark : String) : List (JsonText × Json) → String
  | [] => acc
  | (key, value) :: members =>
    renderMembers (renderOnto (acc ++ mark ++ quote (key.getD "") ++ ":") value) "," members

end

/-- The compact text of a value. -/
def render (j : Json) : String := renderOnto "" j

mutual

theorem renderOnto_append (a b : String) (j : Json) :
    renderOnto (a ++ b) j = a ++ renderOnto b j := by
  match j with
  | .null | .bool _ | .int _ | .real _ | .str _ => simp only [renderOnto, String.append_assoc]
  | .array items => simp only [renderOnto, String.append_assoc, renderItems_append a _ "" items]
  | .object members =>
    simp only [renderOnto, String.append_assoc, renderMembers_append a _ "" members]

theorem renderItems_append (a b mark : String) (items : List Json) :
    renderItems (a ++ b) mark items = a ++ renderItems b mark items := by
  match items with
  | [] => rw [renderItems, renderItems]
  | item :: items =>
    rw [renderItems, renderItems, String.append_assoc, renderOnto_append a _ item,
      renderItems_append a _ "," items]

theorem renderMembers_append (a b mark : String) (members : List (JsonText × Json)) :
    renderMembers (a ++ b) mark members = a ++ renderMembers b mark members := by
  match members with
  | [] => rw [renderMembers, renderMembers]
  | (key, value) :: members =>
    simp only [renderMembers, String.append_assoc, renderOnto_append a _ value,
      renderMembers_append a _ "," members]

end

theorem renderOnto_eq (acc : String) (j : Json) : renderOnto acc j = acc ++ render j := by
  rw [render, ← renderOnto_append, String.append_empty]

end Json
end LiveProbe
