/-!
# Settings with names

The enumerated settings of tracepoints and their names in arguments.
-/

namespace LiveProbe

/-- How many frames of a stack have their variables expanded. -/
inductive FrameType
  | noFrame | singleFrame | allFrame
  deriving DecidableEq, Repr

/-- Whether the callers of the triggering frame are recorded. -/
inductive StackType
  | noStack | stack
  deriving DecidableEq, Repr

/-- What a span covers. -/
inductive SpanType
  | method | line
  deriving DecidableEq, Repr

/-- Where in a line or method a tracepoint fires. -/
inductive Stage
  | lineStart | lineEnd | lineCapture | methodStart | methodEnd | methodCapture
  deriving DecidableEq, Repr

/-- Kinds of metrics. -/
inductive MetricType
  | counter | gauge | histogram | summary
  deriving DecidableEq, Repr

namespace FrameType

/-- The setting of a name. -/
def parse? : String → Option FrameType
  | "no_frame" => some noFrame
  | "single_frame" => some singleFrame
  | "all_frame" => some allFrame
  | _ => none

/-- The name of a setting. -/
def name : FrameType → String
  | noFrame => "no_frame"
  | singleFrame => "single_frame"
  | allFrame => "all_frame"

/-- More is collected at a higher rank. -/
def rank : FrameType → Nat
  | noFrame => 0
  | singleFrame => 1
  | allFrame => 2

/-- The setting that collects more. -/
def max (a b : FrameType) : FrameType := if a.rank ≤ b.rank then b else a

@[simp] theorem parse?_name (t : FrameType) : parse? t.name = some t := by cases t <;> rfl

end FrameType

namespace StackType

/-- The setting of a name. -/
def parse? : String → Option StackType
  | "no_stack" => some noStack
  | "stack" => some stack
  | _ => none

/-- The name of a setting. -/
def name : StackType → String
  | noStack => "no_stack"
  | stack => "stack"

/-- More is collected at a higher rank. -/
def rank : StackType → Nat
  | noStack => 0
  | stack => 1

/-- The setting that collects more. -/
def max (a b : StackType) : StackType := if a.rank ≤ b.rank then b else a

@[simp] theorem parse?_name (t : StackType) : parse? t.name = some t := by cases t <;> rfl

end StackType

namespace SpanType

/-- The setting of a name. -/
def parse? : String → Option SpanType
  | "method" => some method
  | "line" => some line
  | _ => none

end SpanType

namespace Stage

/-- The setting of a name. -/
def parse? : String → Option Stage
  | "line_start" => some lineStart
  | "line_end" => some lineEnd
  | "line_capture" => some lineCapture
  | "method_start" => some methodStart
  | "method_end" => some methodEnd
  | "method_capture" => some methodCapture
  | _ => none

/-- The stage is one of a method. -/
def isMethod : Stage → Bool
  | methodStart | methodEnd | methodCapture => true
  | _ => false

end Stage

namespace MetricType

/-- The setting of a name. -/
def parse? : String → Option MetricType
  | "counter" => some counter
  | "gauge" => some gauge
  | "histogram" => some histogram
  | "summary" => some summary
  | _ => none

/-- The name of a setting. -/
def name : MetricType → String
  | counter => "counter"
  | gauge => "gauge"
  | histogram => "histogram"
  | summary => "summary"

@[simp] theorem parse?_name (t : MetricType) : parse? t.name = some t := by cases t <;> rfl

end MetricType
end LiveProbe
