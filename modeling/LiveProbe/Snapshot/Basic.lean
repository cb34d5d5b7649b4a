import LiveProbe.Config.Tracepoint
import LiveProbe.Frame.Stack

/-!
# Snapshots

What is captured at one firing of a tracepoint.

**Results.**
* `complete_complete`: a completed snapshot stays as it is.
* `mem_unresolved`: an unresolved id is referred to, and the lookup table lacks it.
-/

namespace LiveProbe

/-- Where an expression of a snapshot comes from. -/
inductive WatchSource
  | watch | log | metric | capture
  deriving DecidableEq, Repr

/-- The name of a source. -/
def WatchSource.name : WatchSource → String
  | .watch => "watch"
  | .log => "log"
  | .metric => "metric"
  | .capture => "capture"

/-- The source of a name. -/
def WatchSource.parse? : String → Option WatchSource
  | "watch" => some .watch
  | "log" => some .log
  | "metric" => some .metric
  | "capture" => some .capture
  | _ => none

@[simp] theorem WatchSource.parse?_name (s : WatchSource) : parse? s.name = some s := by
  cases s <;> rfl

/-- An expression with the record of its value or with the wording of a fault. -/
structure WatchResult where
  expression : String
  value : Option VariableId
  fault : Option String
  source : WatchSource
  deriving DecidableEq, Repr

namespace WatchResult

/-- An expression whose value was recorded. -/
def good (expression : String) (value : VariableId) (source : WatchSource) : WatchResult :=
  ⟨expression, some value, none, source⟩

/-- An expression without a recorded value. -/
def failed (expression fault : String) (source : WatchSource) : WatchResult :=
  ⟨expression, none, some fault, source⟩

/-- There is a fault. -/
def isError (w : WatchResult) : Bool := w.fault.isSome

end WatchResult

/-- Description of the observed process. -/
structure Resource where
  attributes : SortedMap String
  deriving DecidableEq

namespace Resource

/-- The name under which the agent presents itself. -/
def sdkName : String := "deep-agent"

/-- The version under which the agent presents itself. -/
def sdkVersion : String := "0.1.0"

/-- The key of the number of the process. -/
def processKey : String := "process.pid"

/-- No description. -/
def empty : Resource := ⟨.empty⟩

/-- The description of a service in a process. -/
def ofService (service process : String) : Resource :=
  ⟨.ofList [("service.name", service), (processKey, process), ("telemetry.sdk.name", sdkName),
    ("telemetry.sdk.version", sdkVersion)]⟩

/-- Sets an attribute. -/
def set (r : Resource) (key value : String) : Resource := ⟨r.attributes.insert key value⟩

end Resource

/-- Values of attributes. -/
inductive AttributeValue
  | bool (value : Bool)
  | int (value : Int64)
  | str (value : String)
  deriving DecidableEq, Repr

/-- One capture. -/
structure Snapshot where
  id : String
  tracepoint : Tracepoint
  /-- Time of the capture in nanoseconds. -/
  ts : Nat
  /-- Time until completion; zero before. -/
  durationNanos : Nat
  resource : Resource
  frames : List StackFrame
  watches : List WatchResult
  attributes : SortedMap AttributeValue
  lookup : SortedMap Variable
  logMsg : Option String
  isOpen : Bool
  deriving DecidableEq

namespace Snapshot

/-- A capture that has begun. -/
def begin (id : String) (tp : Tracepoint) (ts : Nat) (resource : Resource) : Snapshot where
  id := id
  tracepoint := tp
  ts := ts
  durationNanos := 0
  resource := resource
  frames := []
  watches := []
  attributes := .empty
  lookup := .empty
  logMsg := none
  isOpen := true

/-- Sets an attribute. -/
def setAttribute (s : Snapshot) (key : String) (value : AttributeValue) : Snapshot :=
  { s with attributes := s.attributes.insert key value }

/-- Sets an attribute to a text. -/
def setText (s : Snapshot) (key value : String) : Snapshot := s.setAttribute key (.str value)

/-- Appends a watch. -/
def addWatch (s : Snapshot) (w : WatchResult) : Snapshot := { s with watches := s.watches ++ [w] }

/-- Takes the time until now, once only. A clock that went backwards gives zero. -/
def complete (s : Snapshot) (now : Nat) : Snapshot :=
  if s.isOpen then { s with isOpen := false, durationNanos := now - s.ts } else s

/-- The references in the frames, the watches and the lookup table. -/
def references (s : Snapshot) : List VariableId :=
  s.frames.flatMap StackFrame.locals ++ s.watches.filterMap WatchResult.value ++
    s.lookup.entries.flatMap fun e => e.2.children.toList

/-- The ids of references that the lookup table lacks, ascending. -/
def unresolved (s : Snapshot) : List String :=
  (SortedMap.ofList
    ((s.references.filter fun r => (s.lookup.get? r.id).isNone).map fun r => (r.id, ()))).keys

theorem complete_complete (s : Snapshot) (now later : Nat) :
    (s.complete now).complete later = s.complete now := by
  cases h : s.isOpen <;> simp [complete, h]

theorem isOpen_complete (s : Snapshot) (now : Nat) : (s.complete now).isOpen = false := by
  cases h : s.isOpen <;> simp [complete, h]

theorem keys_foldl_insert {α : Type} (es : List (String × α)) (m : SortedMap α) {key : String}
    (h : key ∈ (es.foldl (fun m e => m.insert e.1 e.2) m).keys) :
    key ∈ m.keys ∨ key ∈ es.map Prod.fst := by
  induction es generalizing m with
  | nil => exact Or.inl h
  | cons e es ih =>
    rcases ih (m.insert e.1 e.2) h with h | h
    · simp only [SortedMap.keys, SortedMap.insert, List.mem_map] at h
      obtain ⟨p, hp, rfl⟩ := h
      rcases SortedMap.mem_place hp with rfl | hp
      · exact Or.inr (by simp)
      · exact Or.inl (List.mem_map_of_mem hp)
    · exact Or.inr (List.mem_cons_of_mem _ h)

theorem mem_unresolved {s : Snapshot} {id : String} (h : id ∈ s.unresolved) :
    (∃ r ∈ s.references, r.id = id) ∧ s.lookup.get? id = none := by
  rcases keys_foldl_insert _ _ h with h | h
  · simp [SortedMap.keys, SortedMap.empty] at h
  · simp only [List.map_map, List.mem_map, List.mem_filter, Function.comp] at h
    obtain ⟨r, ⟨hr, hn⟩, rfl⟩ := h
    exact ⟨⟨r, hr, rfl⟩, by simpa using hn⟩

end Snapshot
end LiveProbe
