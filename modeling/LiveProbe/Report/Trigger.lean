import LiveProbe.Diagnostic
import LiveProbe.Report.Config
import LiveProbe.Trigger.Callback
import LiveProbe.Trigger.Index

/-!
# Reports of triggers

Places, actions with their statistics, and deferred callbacks.
-/

namespace LiveProbe

open Json

/-- The name of a position. -/
def Position.title : Position → String
  | .start => "Start"
  | .finish => "End"
  | .capture => "Capture"

/-- The report of a place. -/
def Location.report (l : Location) : Json :=
  match l.target with
  | .line n =>
    .array [ofString "Line", ofString l.path, ofNat n.toNat, ofString l.position.title]
  | .method n => ofStrings ["Function", l.path, n, l.position.title]

/-- The report of what an action does. -/
def ActionConfig.report : ActionConfig → Json
  | .snapshot => .null
  | .log template => ofString template
  | .metric definition => definition.toJson
  | .span spanType name => .array [ofString spanType.title, ofOption ofString name]

/-- The report of an action. -/
def Action.report (a : Action) : Json :=
  ofMembers [("id", ofString a.id), ("tracepoint", ofString a.tracepoint.id),
    ("type", ofString a.config.actionType.name), ("condition", ofOption ofString a.condition),
    ("limits", a.limits.report), ("config", a.config.report)]

/-- The ids of actions. -/
def Action.reportIds (actions : List Action) : Json := ofList (fun a => ofString a.id) actions

/-- The report of a trigger. -/
def Trigger.report (t : Trigger) : Json := .array [t.location.report, Action.reportIds t.actions]

/-- The report of statistics. -/
def FireStats.report (s : FireStats) : Json :=
  ofMembers [("count", ofNat s.count), ("last", ofOption (fun (n : Nat) => decimal n) s.lastFireNs)]

/-- The name of a refusal. -/
def ThrottleReason.name : ThrottleReason → String
  | .fireCountExceeded => "FireCountExceeded"
  | .beforeWindow => "BeforeWindow"
  | .afterWindow => "AfterWindow"
  | .tooSoon => "TooSoon"

/-- The wording of an occasion. -/
def CallbackKind.describe : CallbackKind → String
  | .methodExit => "MethodExit"
  | .lineExit line => "LineExit \x7b line: " ++ toString line ++ " \x7d"

/-- The report of deferred work. -/
def CallbackPayload.report : CallbackPayload → Json
  | .closeSpans handles => ofMembers [("spans", ofList (fun h => ofString h.name) handles)]
  | .runActions actions => ofMembers [("actions", Action.reportIds actions)]

/-- The report of a deferred callback. -/
def DeferredCallback.report (c : DeferredCallback) : Json :=
  .array [ofString c.location.file, ofString c.location.function,
    ofString c.location.kind.describe, c.payload.report]

/-- The line of a diagnostic. -/
def Diagnostic.line (d : Diagnostic) : String :=
  (match d.severity with
    | .warning => "warn: "
    | .error => "error: ") ++ d.message

end LiveProbe
