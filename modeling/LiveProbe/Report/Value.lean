import LiveProbe.Report.Basic
import LiveProbe.Snapshot.Codec
import LiveProbe.Value.Text

/-!
# Reports of values

Live values and the records made of them.
-/

namespace LiveProbe

open Json

/-- The name of a class of values. -/
def ValueKind.name : ValueKind → String
  | .primitive => "Primitive"
  | .sequence => "Sequence"
  | .set => "Set"
  | .mapping => "Mapping"
  | .object => "Object"
  | .exception => "Exception"
  | .iterator => "Iterator"
  | .other => "Other"

namespace Heap

/-- The report of a value. -/
def report (h : Heap) (r : Ref) : Json :=
  let v := h.read r
  ofMembers [("type", ofString v.typeName), ("kind", ofString v.kind.name),
    ("repr", ofString (h.textOf r)), ("display", ofString (h.display r)),
    ("truthy", .bool v.isTruthy), ("none", .bool v.isNone), ("len", ofOption ofNat v.length?)]

/-- The short report of a value. -/
def brief (h : Heap) (r : Ref) : Json :=
  ofMembers [("type", ofString (h.read r).typeName), ("repr", ofString (h.textOf r))]

end Heap

/-- The report of a record, without its identity. -/
def Variable.report (v : Variable) : Json :=
  ofMembers [("type", ofString v.typeName), ("value", ofString v.value),
    ("children", ofList VariableId.toJson v.children.toList), ("truncated", .bool v.truncated)]

/-- The report of a lookup table. -/
def lookupReport (records : List (String × Variable)) : Json :=
  ofMembers (records.map fun e => (e.1, e.2.report))

end LiveProbe
