/-!
# JSON values

Values as they stand in a text: members keep their order and may repeat a key,
and numbers other than integers keep their spelling.
-/

namespace LiveProbe

/-- A string literal. An unpaired surrogate escape leaves it without a text. -/
abbrev JsonText := Option String

/-- JSON values. -/
inductive Json
  | null
  | bool (value : Bool)
  | int (value : Int)
  | real (spelling : String)
  | str (text : JsonText)
  | array (items : List Json)
  | object (members : List (JsonText × Json))

namespace Json

/-- A string that has a text. -/
def ofString (s : String) : Json := .str (some s)

/-- An object whose keys have texts. -/
def ofMembers (members : List (String × Json)) : Json :=
  .object (members.map fun m => (some m.1, m.2))

/-- The values of all members with a key, in order. -/
def membersNamed (key : String) (members : List (JsonText × Json)) : List Json :=
  (members.filter fun m => m.1 == some key).map Prod.snd

end Json
end LiveProbe
