import LiveProbe.Context.Basic
import LiveProbe.Context.Template
import LiveProbe.Decimal.Reader
import LiveProbe.Value.Number

/-!
# Processing of actions

What each kind of action does when it fires.

**Algorithm.** An action whose limits allow it and whose condition holds collects,
writes, emits or opens what it is for, and leaves a result. A panic on the way ends
the action only; what it changed until then stays.

**Results.**
* `fire_of_refused`: an action that its limits refuse changes nothing.
-/

namespace LiveProbe

/-- Steps of processing; `none` after a panic, with the state up to it. -/
abbrev Acting (α : Type) := OptionT (StateM Firing) α

/-- The numeric reading of a metric. -/
def Value.metricNumber? : Value → Option Float
  | .int i => some (nearestFloat i)
  | .float x => some x
  | .bool b => some (if b then 1.0 else 0.0)
  | .str s => Decimal.readFloat (Text.trimChars s.toList)
  | _ => Option.none

namespace Acting

/-! ### Expressions -/

/-- The value of an expression, or the fault of its evaluation. -/
def evaluate (c : Collaborators) (expression : String) : Acting (Except EvalError Ref) := do
  let f ← get
  match c.evaluate expression f.context.bindings f.agent.heap with
  | .value r heap =>
    set { f with agent := { f.agent with heap := heap } }
    return .ok r
  | .fault e => return .error e
  | .panic => failure

/-- What is said of a value for which there was no room or no time. -/
def limitReached : String := "capture limit reached before the value was recorded"

/-- Records the value of an expression. -/
def walkWatch (expression : String) (value : Ref) (source : WatchSource) : Acting WatchResult := do
  let f ← get
  let x := f.context
  let (id, table, budget) :=
    walkOne f.agent.heap x.config.walkLimits expression value x.capture.table x.capture.budget
  set { f with context := { x with capture := ⟨table, budget⟩ } }
  match id with
  | some id => return .good expression id source
  | none => return .failed expression limitReached source

/-- Evaluates an expression and records its value. -/
def watch (c : Collaborators) (expression : String) (source : WatchSource) :
    Acting WatchResult := do
  match ← evaluate c expression with
  | .ok value => walkWatch expression value source
  | .error e => return .failed expression e.message source

/-- The text for a fault within a message or a label. -/
def faultText (e : EvalError) : String := "<error: " ++ e.message ++ ">"

/-- The text of an expression's value, or of its fault. -/
def valueText (c : Collaborators) (expression : String) : Acting String := do
  match ← evaluate c expression with
  | .ok value => return (← get).agent.heap.display value
  | .error e => return faultText e

/-- The condition of an action holds. One that cannot be evaluated does not. -/
def conditionMet (c : Collaborators) (a : Action) : Acting Bool := do
  match a.condition with
  | none => return true
  | some condition =>
    match ← evaluate c condition with
    | .ok value => return ((← get).agent.heap.read value).isTruthy
    | .error _ => return false

/-! ### Snapshots -/

/-- The stack, which is collected once for all snapshots of the context. -/
def collectFrames (c : Collaborators) : Acting (List StackFrame) := do
  let f ← get
  let x := f.context
  match x.frames with
  | some frames => return frames
  | none =>
    let (frames, capture) := Stack.collect f.agent.heap x.config c.inApp x.frame x.capture
    set { f with context := { x with frames := frames, capture := capture } }
    match frames with
    | some frames => return frames
    | none => failure

/-- The attributes of every snapshot, over which those of the user are laid. -/
def withAttributes (x : TriggerContext) (tp : Tracepoint) (s : Snapshot) : Snapshot :=
  let s := s.setText "path" tp.path
  let s := s.setAttribute "line" (.int (Int64.ofNat tp.lineNo.toNat))
  let s := s.setText "method" x.frame.top.function
  let s := s.setText "frame" tp.frameType.name
  let s := s.setText "stack" tp.stackType.name
  let s := s.setText "tracepoint" tp.id
  let s := s.setAttribute "ctx" (.int x.id.toInt64)
  tp.attributes.foldl (fun s a => s.setText a.1 a.2) s

/-- A snapshot that has begun now. -/
def beginSnapshot (c : Collaborators) (tp : Tracepoint) : Acting Snapshot := do
  let f ← get
  set { f with agent := { f.agent with captures := f.agent.captures + 1 } }
  return .begin (Id128.render (c.snapshotId f.agent.captures)) tp f.context.ts c.resource

/-- Collects a snapshot. -/
def processSnapshot (c : Collaborators) (tp : Tracepoint) : Acting Bool := do
  let snapshot ← beginSnapshot c tp
  let frames ← collectFrames c
  let watches ← tp.watches.mapM fun expression => watch c expression .watch
  let x := (← get).context
  modify (·.leave (.snapshot (withAttributes x tp { snapshot with frames, watches })))
  return true

/-! ### Messages -/

/-- The text of a segment. Where a snapshot is collected, the value of an expression
is recorded for it. -/
def segmentText (c : Collaborators) (tp : Tracepoint) : Segment → Acting String
  | .char ch => return ch.toString
  | .expression source => do
    match ← evaluate c source with
    | .ok value =>
      let text := (← get).agent.heap.display value
      if tp.collectsSnapshot then
        let w ← walkWatch source value .log
        modify (·.attach tp.id w)
      return text
    | .error e =>
      if tp.collectsSnapshot then modify (·.attach tp.id (.failed source e.message .log))
      return faultText e

/-- The text of a template. -/
def formatLog (c : Collaborators) (tp : Tracepoint) (template : String) : Acting String := do
  return String.join (← (Template.segments template).mapM (segmentText c tp))

/-- Writes a message. -/
def processLog (c : Collaborators) (tp : Tracepoint) (template : String) : Acting Bool := do
  let message ← formatLog c tp template
  modify (·.leave (.log tp.id (Limits.logLead ++ message)))
  return true

/-! ### Metrics -/

/-- The value of a metric; `none` where there is none, which is reported. -/
def metricValue (c : Collaborators) (tp : Tracepoint) (m : MetricDefinition) :
    Acting (Option Float) := do
  match m.expression with
  | none => return some 1.0
  | some expression =>
    match ← evaluate c expression with
    | .ok value =>
      let number := ((← get).agent.heap.read value).metricNumber?
      if tp.collectsSnapshot then
        let w ← walkWatch expression value .metric
        modify (·.attach tp.id w)
      if number.isNone then modify (·.report .metricNotNumeric)
      return number
    | .error e =>
      modify (·.report .metricFailed)
      if tp.collectsSnapshot then
        modify (·.attach tp.id (.failed expression e.message .metric))
      return none

/-- The text of a label. -/
def labelText (c : Collaborators) (l : LabelExpression) : Acting String := do
  match l.fixed, l.expression with
  | some fixed, _ => return fixed
  | none, some expression => valueText c expression
  | none, none => return ""

/-- The labels of a metric. -/
def labels (c : Collaborators) (m : MetricDefinition) : Acting (SortedMap String) := do
  return .ofList (← m.labels.mapM fun l => return (l.key, ← labelText c l))

/-- Hands an observation to a processor. Its panic is contained. -/
def emitTo (t : MetricType) (s : MetricSample) (p : MetricProcessor × Nat) (f : Firing) : Firing :=
  let f := { f with agent := { f.agent with journal := f.agent.journal.emit ⟨p.2, t, s⟩ } }
  if p.1.panics t s then f.report .metricProcessorPanicked else f

/-- Emits a metric. -/
def processMetric (c : Collaborators) (tp : Tracepoint) (m : MetricDefinition) : Acting Bool := do
  match ← metricValue c tp m with
  | none => return false
  | some value =>
    let sample : MetricSample := ⟨m.name, ← labels c m, m.scope, m.help, m.unit, value⟩
    modify fun f => c.plugins.activeMetrics.foldl (fun f p => emitTo m.metricType sample p f) f
    modify (·.leave (.metric tp.id))
    return true

/-! ### Spans -/

/-- The name of a span: that of the method, or the place of the line. -/
def spanName (frame : HostFrame) (spanType : SpanType) (name : Option String) : String :=
  match name, spanType with
  | some name, _ => name
  | none, .method => frame.top.function
  | none, .line => s!"{Path.baseName frame.top.file}:{frame.top.line}"

/-- The attributes of a span, which are laid over those of the user. -/
def spanAttributes (frame : HostFrame) (tp : Tracepoint) : SortedMap String :=
  .ofList (tp.attributes ++ [("path", tp.path), ("line", toString tp.lineNo),
    ("method", frame.top.function)])

/-- Asks the processors for spans. -/
def openSpans (request : SpanRequest) : List (SpanProcessor × Nat) → Acting (List SpanHandle)
  | [] => return []
  | p :: ps => do
    match p.1.answer request with
    | .declined => openSpans request ps
    | .panicked => failure
    | .opened =>
      let f ← get
      let (handle, agent) := f.agent.openSpan p.2 request
      set { f with agent := agent }
      return handle :: (← openSpans request ps)

/-- The occasion on which a span is closed; on an exit there is none later. -/
def closeOn (x : TriggerContext) (spanType : SpanType) : Option CallbackLocation :=
  if x.event.isExit then none
  else
    some <| .ofFrame x.frame <|
      match spanType with
      | .method => .methodExit
      | .line => .lineExit x.frame.top.line

/-- Opens spans. -/
def processSpan (c : Collaborators) (tp : Tracepoint) (spanType : SpanType)
    (name : Option String) : Acting Bool := do
  let x := (← get).context
  let request : SpanRequest :=
    ⟨spanName x.frame spanType name, x.id, tp.id, spanAttributes x.frame tp⟩
  let handles ← openSpans request c.plugins.activeSpans
  if handles.isEmpty then return false
  modify (·.leave (.span tp.id handles (closeOn x spanType)))
  return true

/-! ### All actions -/

/-- Does what an action is for, whatever its condition. -/
def perform (c : Collaborators) (a : Action) : Acting Bool :=
  match a.config with
  | .snapshot => processSnapshot c a.tracepoint
  | .log template => processLog c a.tracepoint template
  | .metric definition => processMetric c a.tracepoint definition
  | .span spanType name => processSpan c a.tracepoint spanType name

/-- Does what an action is for, if its condition holds. -/
def processAction (c : Collaborators) (a : Action) : Acting Bool := do
  modify (·.enter .evaluating)
  if ← conditionMet c a then
    modify (·.enter .processing)
    perform c a
  else return false

end Acting

namespace Firing

/-- Runs steps that may panic. A panic is reported and counts as no success. -/
def contain (m : Acting Bool) (f : Firing) : Bool × Firing :=
  match (m.run.run f : Option Bool × Firing) with
  | (some success, f) => (success, f)
  | (none, f) => (false, f.report .actionPanicked)

/-- Records a firing of an action at the time of the context. -/
def record (f : Firing) (a : Action) : Firing :=
  { f with agent := { f.agent with ledger := f.agent.ledger.record a.key f.context.ts } }

/-- The limit that stands against an action. -/
def refusal? (f : Firing) (a : Action) : Option ThrottleReason :=
  a.limits.refusal? (f.agent.ledger.read a.key) f.context.ts

/-- Fires an action, if its limits allow it, and tells whether it did. -/
def fire (c : Collaborators) (a : Action) (f : Firing) : Bool × Firing :=
  match f.refusal? a with
  | some _ => (false, f)
  | none =>
    match f.contain (Acting.processAction c a) with
    | (true, f) => (true, f.record a)
    | (false, f) => (false, f)

/-- Fires actions in their order and counts those that did. -/
def process (c : Collaborators) : List Action → Firing → Nat × Firing
  | [], f => (0, f)
  | a :: rest, f =>
    let (fired, f) := f.fire c a
    let (count, f) := process c rest f
    (count + fired.toNat, f)

theorem fire_of_refused {f : Firing} {a : Action} {reason : ThrottleReason}
    (h : f.refusal? a = some reason) (c : Collaborators) : f.fire c a = (false, f) := by
  simp [fire, h]

end Firing
end LiveProbe
