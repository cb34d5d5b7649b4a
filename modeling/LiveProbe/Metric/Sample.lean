import LiveProbe.SortedMap

/-!
# Metric samples

One observation of a metric and the series to which it belongs.
-/

namespace LiveProbe

/-- One observation. -/
structure MetricSample where
  name : String
  labels : SortedMap String
  scope : Option String
  help : Option String
  unit : Option String
  value : Float

namespace MetricSample

/-- The name behind its scope; an empty scope is none. -/
def qualifiedName (s : MetricSample) : String :=
  match s.scope with
  | some scope => if scope.isEmpty then s.name else scope ++ "_" ++ s.name
  | none => s.name

/-- The text of one label. -/
def labelText (label : String × String) : String := label.1 ++ "=" ++ label.2

/-- The text under which the observations of a series are gathered: the qualified
name, and the labels, if there are any, in braces and in the order of their keys. -/
def seriesKey (s : MetricSample) : String :=
  if s.labels.isEmpty then s.qualifiedName
  else
    s.qualifiedName ++ "\x7b" ++ String.intercalate "," (s.labels.entries.map labelText) ++ "\x7d"

end MetricSample
end LiveProbe
