import LiveProbe.Limits

/-!
# Captured variables

Records of observed values, the references that point at them, and the bounds of
a capture.
-/

namespace LiveProbe

/-- Reference to a record of a lookup table. One record may be referred to under
several names. -/
structure VariableId where
  id : String
  /-- Name at the place of reference: binding, field, key or index. -/
  name : String
  modifiers : List String
  /-- Name as stored, where it differs from `name`. -/
  originalName : Option String
  deriving DecidableEq, Repr

/-- One distinct observed value. -/
structure Variable where
  typeName : String
  value : String
  /-- The identity on which the value was recognised. -/
  hash : String
  children : Array VariableId
  /-- The text was cut, or children were left out. -/
  truncated : Bool
  deriving DecidableEq, Repr

/-- Bounds of one walk. -/
structure WalkLimits where
  maxVarDepth : Nat
  maxVariables : Nat
  maxCollectionSize : Nat
  maxStringLength : Nat
  deriving DecidableEq, Repr

/-- The bounds where nothing else is asked for. -/
def WalkLimits.standard : WalkLimits where
  maxVarDepth := Limits.varDepth
  maxVariables := Limits.variableCount
  maxCollectionSize := Limits.collectionSize
  maxStringLength := Limits.stringLength

/-- The first `max` characters of a text, and whether any were cut. -/
def truncateChars (max : Nat) (text : String) : String × Bool :=
  if text.length ≤ max then (text, false)
  else (String.ofList (text.toList.take max), true)

end LiveProbe
