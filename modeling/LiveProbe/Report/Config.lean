import LiveProbe.Capture.Config
import LiveProbe.Config.Agent
import LiveProbe.Report.Fault
import LiveProbe.Config.Codec
import LiveProbe.Trigger.Action

/-!
# Reports of settings

Tracepoints as their arguments are understood, and the settings of agents and
captures.
-/

namespace LiveProbe

open Json

/-- The name of what a span covers. -/
def SpanType.title : SpanType → String
  | .method => "Method"
  | .line => "Line"

/-- The name of a stage. -/
def Stage.title : Stage → String
  | .lineStart => "LineStart"
  | .lineEnd => "LineEnd"
  | .lineCapture => "LineCapture"
  | .methodStart => "MethodStart"
  | .methodEnd => "MethodEnd"
  | .methodCapture => "MethodCapture"

/-- The settings that a name stands for. -/
def settingReport (name : String) : Json :=
  ofMembers [("frame_type", ofOption (fun t => ofString t.name) (FrameType.parse? name)),
    ("stack_type", ofOption (fun t => ofString t.name) (StackType.parse? name)),
    ("span_type", ofOption (fun t => ofString t.title) (SpanType.parse? name)),
    ("stage", ofOption (fun t => .array [ofString t.title, .bool t.isMethod]) (Stage.parse? name))]

/-- The report of the limits on firing. -/
def FireLimits.report (l : FireLimits) : Json :=
  ofMembers [("fire_count", decimal l.fireCount), ("fire_period_ns", decimal l.firePeriodNs),
    ("window_start_ns", decimal l.windowStartNs), ("window_end_ns", decimal l.windowEndNs)]

/-- The report of a tracepoint. -/
def Tracepoint.report (t : Tracepoint) : Json :=
  let size (n : Option Nat) := ofOption (fun (n : Nat) => decimal n) n
  let text := ofOption ofString
  ofMembers [("attributes", ofList (fun a => ofStrings [a.1, a.2]) t.attributes),
    ("collects_snapshot", .bool t.collectsSnapshot), ("condition", text t.condition?),
    ("fire_count", decimal t.fireCount), ("fire_period_ms", decimal t.firePeriodMs),
    ("window_start_ms", decimal t.windowStartMs), ("window_end_ms", decimal t.windowEndMs),
    ("frame_type", ofString t.frameType.name), ("stack_type", ofString t.stackType.name),
    ("hash", ofString (Tracepoint.fingerprint [t])), ("json", t.toJson),
    ("limits", (FireLimits.ofTracepoint t).report), ("log_msg", text t.logMsg?),
    ("max_collection_size", size t.maxCollectionSize?),
    ("max_string_length", size t.maxStringLength?),
    ("max_tp_process_time_ms", size t.maxProcessTimeMs?), ("max_var_depth", size t.maxVarDepth?),
    ("max_variables", size t.maxVariables?), ("method_name", text t.methodName?),
    ("span", text (t.span?.map SpanType.title)), ("stage", ofString t.stage.title),
    ("stage_is_method", .bool t.stage.isMethod),
    ("validate",
      match t.validate with
      | .ok _ => .null
      | .error e => e.report)]

/-- The ids of tracepoints. -/
def Tracepoint.reportIds (ts : List Tracepoint) : Json := ofList (fun t => ofString t.id) ts

/-- The report of an agent's settings: the settings with all numbers as texts, their
names in order, and whether they are the defaults. -/
def AgentConfig.report (c : AgentConfig) : Json :=
  let shown := (AgentConfig.fieldNames.zip (AgentConfig.fields c)).map fun e =>
    match e.2 with
    | .int n => (e.1, decimal n)
    | value => (e.1, value)
  ofMembers [("config", ofMembers shown), ("is_default", .bool (c == .standard)),
    ("keys", ofStrings (SortedMap.ofList shown).keys)]

/-- The report of the settings of a capture. -/
def CaptureConfig.report (c : CaptureConfig) : Json :=
  ofMembers [("depth", decimal c.maxVarDepth), ("variables", decimal c.maxVariables),
    ("collection", decimal c.maxCollectionSize), ("string", decimal c.maxStringLength),
    ("process_time_ms", decimal c.maxProcessTimeMs), ("frame_type", ofString c.frameType.name),
    ("stack_type", ofString c.stackType.name)]

end LiveProbe
