import LiveProbe.Trigger.Action
import LiveProbe.Trigger.Location

/-!
# Index of triggers

Tracepoints as triggers, found by the file of an event.

**Algorithm.** Valid tracepoints become triggers in their order. Triggers wait in
buckets by the last component of their path, and those of one place and position
are one trigger. Every action gets a fresh key for its statistics; a rebuilt index
takes over those of unchanged tracepoints.

**Results.**
* `hasFile_of_matching`: no event is matched in a file without a bucket.
-/

namespace LiveProbe

/-- The actions that run at a location, in order. -/
structure Trigger where
  location : Location
  actions : List Action
  deriving DecidableEq

namespace Tracepoint

/-- The place that a tracepoint watches. -/
def location (tp : Tracepoint) : Location :=
  let method := Target.method (tp.methodName?.getD "")
  match tp.stage with
  | .lineStart => ⟨tp.path, .line tp.lineNo, .start⟩
  | .lineEnd => ⟨tp.path, .line tp.lineNo, .finish⟩
  | .lineCapture => ⟨tp.path, .line tp.lineNo, .capture⟩
  | .methodStart => ⟨tp.path, method, .start⟩
  | .methodEnd => ⟨tp.path, method, .finish⟩
  | .methodCapture => ⟨tp.path, method, .capture⟩

/-- The metrics of a tracepoint with the ends of their ids. -/
def metricEffects (tp : Tracepoint) : List (String × ActionConfig) :=
  tp.metrics.zipIdx.map fun m => (s!"-metric-{m.2}", .metric m.1)

/-- The span of a tracepoint; one of a method bears its name. -/
def spanEffect (tp : Tracepoint) : List (String × ActionConfig) :=
  match tp.span? with
  | some .method => [("-span", .span .method tp.methodName?)]
  | some .line => [("-span", .span .line none)]
  | none => []

/-- What a tracepoint does, with the ends of the ids: the message first, then the
snapshot, the metrics and the span. -/
def effects (tp : Tracepoint) : List (String × ActionConfig) :=
  (match tp.logMsg? with
    | some template => [("-log", ActionConfig.log template)]
    | none => []) ++
  (if tp.collectsSnapshot then [("-snapshot", .snapshot)] else []) ++
  tp.metricEffects ++ tp.spanEffect

/-- The actions of a tracepoint, with keys from `key` on. -/
def actions (tp : Tracepoint) (key : Nat) : List Action :=
  tp.effects.zipIdx.map fun e => .ofTracepoint (tp.id ++ e.1.1) tp e.1.2 (key + e.2)

/-- The trigger of a tracepoint. -/
def trigger (tp : Tracepoint) (key : Nat) : Trigger := ⟨tp.location, tp.actions key⟩

end Tracepoint

/-- Triggers by file name. -/
structure TriggerIndex where
  buckets : List (String × List Trigger)
  /-- The number of tracepoints with at least one action. -/
  tracepoints : Nat

namespace TriggerIndex

/-- No triggers. -/
def empty : TriggerIndex := ⟨[], 0⟩

/-- Adds a trigger to those of its file. One of the same place and position takes
over its actions. -/
def addTo (t : Trigger) : List Trigger → List Trigger
  | [] => [t]
  | u :: us =>
    if u.location = t.location then { u with actions := u.actions ++ t.actions } :: us
    else u :: addTo t us

/-- Adds a trigger to the bucket of a file. -/
def addIn (file : String) (t : Trigger) :
    List (String × List Trigger) → List (String × List Trigger)
  | [] => [(file, [t])]
  | b :: bs => if b.1 = file then (file, addTo t b.2) :: bs else b :: addIn file t bs

/-- Adds a trigger. -/
def insert (index : TriggerIndex) (t : Trigger) : TriggerIndex :=
  { index with buckets := addIn t.location.fileName t index.buckets }

/-- The tracepoint takes part: it is valid and does something. -/
def accepts (tp : Tracepoint) : Bool :=
  (match tp.validate with
    | .ok _ => true
    | .error _ => false) && !tp.effects.isEmpty

/-- The tracepoints that are skipped because of a fault. -/
def invalid (tps : List Tracepoint) : List Tracepoint :=
  tps.filter fun tp =>
    match tp.validate with
    | .ok _ => false
    | .error _ => true

/-- Adds the triggers of tracepoints, with keys from `key` on. -/
def addAll (index : TriggerIndex) (key : Nat) : List Tracepoint → TriggerIndex
  | [] => index
  | tp :: tps =>
    if accepts tp then
      let index := index.insert (tp.trigger key)
      addAll { index with tracepoints := index.tracepoints + 1 } (key + tp.effects.length) tps
    else addAll index key tps

/-- The index of tracepoints, with keys from `key` on. -/
def build (key : Nat) (tps : List Tracepoint) : TriggerIndex := addAll empty key tps

/-- All triggers. -/
def triggers (index : TriggerIndex) : List Trigger := index.buckets.flatMap Prod.snd

/-- All actions. -/
def actions (index : TriggerIndex) : List Action := index.triggers.flatMap Trigger.actions

/-- The action of the same id and an equal tracepoint; of several with one id only
the last counts. -/
def predecessor? (previous : TriggerIndex) (a : Action) : Option Action :=
  match previous.actions.reverse.find? fun old => old.id == a.id with
  | some old => if old.tracepoint = a.tracepoint then some old else none
  | none => none

/-- Copies the statistics of the predecessors of actions. -/
def inherit (previous : TriggerIndex) (ledger : FireLedger) (actions : List Action) : FireLedger :=
  actions.foldl
    (fun l a =>
      match previous.predecessor? a with
      | some old => l.write a.key (l.read old.key)
      | none => l)
    ledger

/-- The index of tracepoints with fresh statistics. -/
def opened (ledger : FireLedger) (tps : List Tracepoint) : TriggerIndex × FireLedger :=
  let index := build ledger.next tps
  (index, ledger.extend index.actions.length)

/-- The index of tracepoints with the statistics of what did not change. -/
def rebuild (ledger : FireLedger) (tps : List Tracepoint) (previous : TriggerIndex) :
    TriggerIndex × FireLedger :=
  let (index, ledger) := opened ledger tps
  (index, previous.inherit ledger index.actions)

/-- The triggers of a file. -/
def bucket (index : TriggerIndex) (file : String) : List Trigger :=
  (index.buckets.lookup (Path.baseName file)).getD []

/-- The triggers that an event hits. -/
def matching (index : TriggerIndex) (event : TraceEvent) (file : String) (line : UInt32)
    (function : String) : List Trigger :=
  (index.bucket file).filter fun t => t.location.isHit event file line function

/-- There are triggers for the file. -/
def hasFile (index : TriggerIndex) (file : String) : Bool :=
  (index.buckets.lookup (Path.baseName file)).isSome

/-- There are no triggers. -/
def isEmpty (index : TriggerIndex) : Bool := index.buckets.isEmpty

/-- The number of triggers. -/
def triggerCount (index : TriggerIndex) : Nat := index.triggers.length

theorem hasFile_of_matching {index : TriggerIndex} {event : TraceEvent} {file : String}
    {line : UInt32} {function : String}
    (h : index.matching event file line function ≠ []) : index.hasFile file = true := by
  unfold hasFile
  cases hb : index.buckets.lookup (Path.baseName file) with
  | none => simp [matching, bucket, hb] at h
  | some _ => rfl

end TriggerIndex
end LiveProbe
