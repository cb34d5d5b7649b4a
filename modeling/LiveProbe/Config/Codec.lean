import LiveProbe.Config.Tracepoint
import LiveProbe.Hash.Sip
import LiveProbe.Json.Decode
import LiveProbe.Json.Printer
import LiveProbe.Json.Reader

/-!
# Tracepoints in JSON

The canonical text of a list of tracepoints, its reading, and the fingerprint of
the text.
-/

namespace LiveProbe

open Json

namespace LabelExpression

/-- A label as JSON. -/
def toJson (l : LabelExpression) : Json :=
  ofMembers ([("key", ofString l.key)] ++ optional "static" ofString l.fixed ++
    optional "expression" ofString l.expression)

/-- The label of a JSON value. -/
def ofJson? (j : Json) : Option LabelExpression := do
  let [key, fixed, expression] ← fields? ["key", "static", "expression"] j | none
  return ⟨← required text? key, ← nullable text? fixed, ← nullable text? expression⟩

end LabelExpression

namespace MetricDefinition

/-- A metric as JSON. -/
def toJson (m : MetricDefinition) : Json :=
  ofMembers ([("name", ofString m.name), ("labels", .array (m.labels.map LabelExpression.toJson)),
    ("type", ofString m.metricType.name)] ++ optional "expression" ofString m.expression ++
    optional "namespace" ofString m.scope ++ optional "help" ofString m.help ++
    optional "unit" ofString m.unit)

/-- The metric of a JSON value. -/
def ofJson? (j : Json) : Option MetricDefinition := do
  let [name, labels, metricType, expression, scope, help, unit] ←
    fields? ["name", "labels", "type", "expression", "namespace", "help", "unit"] j | none
  return ⟨← required text? name, ← orElse [] (list? LabelExpression.ofJson?) labels,
    ← orElse .counter (named? MetricType.parse?) metricType, ← nullable text? expression,
    ← nullable text? scope, ← nullable text? help, ← nullable text? unit⟩

end MetricDefinition

namespace Tracepoint

/-- A tracepoint as JSON. -/
def toJson (tp : Tracepoint) : Json :=
  ofMembers [("id", ofString tp.id), ("path", ofString tp.path), ("line_no", .int tp.lineNo.toNat),
    ("args", ofMap ofString tp.args), ("watches", .array (tp.watches.map ofString)),
    ("metrics", .array (tp.metrics.map MetricDefinition.toJson))]

/-- The tracepoint of a JSON value. -/
def ofJson? (j : Json) : Option Tracepoint := do
  let [id, path, lineNo, args, watches, metrics] ←
    fields? ["id", "path", "line_no", "args", "watches", "metrics"] j | none
  return ⟨← required text? id, ← required text? path, ← required word32? lineNo,
    ← orElse .empty (map? text?) args, ← orElse [] (list? text?) watches,
    ← orElse [] (list? MetricDefinition.ofJson?) metrics⟩

/-- The canonical text of tracepoints. -/
def renderAll (tps : List Tracepoint) : String := (Json.array (tps.map toJson)).render

/-- The tracepoints of a text. -/
def parseAll? (text : String) : Option (List Tracepoint) := do
  list? ofJson? (← Json.parse? text)

/-- The fingerprint of tracepoints: the hash of their canonical text, closed by a
byte that no text holds. -/
def fingerprint (tps : List Tracepoint) : String :=
  Hash.hex64 (Hash.sip ((renderAll tps).toUTF8.toList ++ [0xff]))

end Tracepoint
end LiveProbe
