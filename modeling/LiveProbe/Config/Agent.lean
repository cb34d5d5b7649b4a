import LiveProbe.Config.Error
import LiveProbe.Json.Decode
import LiveProbe.Json.Reader
import LiveProbe.Limits
import LiveProbe.Text.Blank
import LiveProbe.Text.Lossy

/-!
# Settings of the agent

Defaults, the settings of a file, and the environment laid over them.
-/

namespace LiveProbe

/-- Settings of one agent. -/
structure AgentConfig where
  serviceName : String
  resource : SortedMap String
  inAppInclude : List String
  inAppExclude : List String
  appRoot : Option String
  maxProcessTimeMs : Nat
  workerThreads : Nat
  queueCapacity : Nat
  shutdownTimeoutMs : Nat
  deriving DecidableEq

/-- The environment: names with their raw values. -/
abbrev Environment := List (String × List UInt8)

namespace AgentConfig

/-- The settings where nothing else is asked for. -/
def standard : AgentConfig where
  serviceName := "unknown_service"
  resource := .empty
  inAppInclude := []
  inAppExclude := []
  appRoot := none
  maxProcessTimeMs := Limits.processTimeMs
  workerThreads := Limits.workerThreads
  queueCapacity := Limits.queueCapacity
  shutdownTimeoutMs := Limits.shutdownTimeoutMs

/-- The fields of the settings in a file, in order. -/
def fieldNames : List String :=
  ["service_name", "resource", "in_app_include", "in_app_exclude", "app_root",
    "max_tp_process_time_ms", "worker_threads", "queue_capacity", "shutdown_timeout_ms"]

/-- The settings of a JSON value; missing fields keep their defaults. -/
def ofJson? (j : Json) : Option AgentConfig := do
  let [serviceName, resource, included, excluded, appRoot, processTime, workers, capacity, timeout] ←
    Json.fields? fieldNames j | none
  return {
    serviceName := ← Json.orElse standard.serviceName Json.text? serviceName
    resource := ← Json.orElse standard.resource (Json.map? Json.text?) resource
    inAppInclude := ← Json.orElse [] (Json.list? Json.text?) included
    inAppExclude := ← Json.orElse [] (Json.list? Json.text?) excluded
    appRoot := ← Json.nullable Json.text? appRoot
    maxProcessTimeMs := ← Json.orElse standard.maxProcessTimeMs Json.nat64? processTime
    workerThreads := ← Json.orElse standard.workerThreads Json.nat64? workers
    queueCapacity := ← Json.orElse standard.queueCapacity Json.nat64? capacity
    shutdownTimeoutMs := ← Json.orElse standard.shutdownTimeoutMs Json.nat64? timeout }

/-- The fields of the settings as JSON, in order. -/
def fields (c : AgentConfig) : List Json :=
  [.ofString c.serviceName, .ofMap .ofString c.resource,
    .array (c.inAppInclude.map .ofString), .array (c.inAppExclude.map .ofString),
    (c.appRoot.map .ofString).getD .null, .int c.maxProcessTimeMs, .int c.workerThreads,
    .int c.queueCapacity, .int c.shutdownTimeoutMs]

/-- The settings as JSON. -/
def toJson (c : AgentConfig) : Json := .ofMembers (fieldNames.zip c.fields)

/-- The settings of a file with a given content; there may be no such file. -/
def ofFile (path : String) (content : Option (List UInt8)) : Except ConfigError AgentConfig :=
  match content with
  | none => .error (.invalidFile path "no such file")
  | some bytes =>
    match Text.strict? bytes with
    | none => .error (.invalidFile path "the content is not well-formed text")
    | some text =>
      match (Json.parse? text).bind ofJson? with
      | some c => .ok c
      | none => .error (.unparsable "the content does not describe settings")

/-- At least one worker and room for one delivery. -/
def withWorkers (c : AgentConfig) (threads capacity : Nat) : AgentConfig :=
  { c with workerThreads := max threads 1, queueCapacity := max capacity 1 }

/-! ### Environment -/

/-- A variable's trimmed text; blank and ill-formed values count as absent. -/
def setting? (env : Environment) (name : String) : Option String := do
  let text ← Text.strict? (← env.lookup name)
  if Text.isBlankText text then none else some (Text.trim text)

/-- A variable's number. -/
def number? (env : Environment) (name : String) : Except ConfigError (Option Nat) :=
  match setting? env name with
  | none => .ok none
  | some raw =>
    match Text.readInt .unsigned64 raw.toList with
    | .ok n => .ok (some n.toNat)
    | .error e => .error (.invalidArgument name raw e.message)

/-- The trimmed parts between commas; blank ones are dropped. -/
def splitList (raw : String) : List String :=
  ((raw.splitOn ",").filter fun part => !Text.isBlankText part).map Text.trim

/-- Lays the environment over the settings. -/
def overlay (c : AgentConfig) (env : Environment) : Except ConfigError AgentConfig := do
  let named : AgentConfig := { c with
    serviceName := (setting? env "DEEP_SERVICE_NAME").getD c.serviceName
    inAppInclude := ((setting? env "DEEP_IN_APP_INCLUDE").map splitList).getD c.inAppInclude
    inAppExclude := ((setting? env "DEEP_IN_APP_EXCLUDE").map splitList).getD c.inAppExclude
    appRoot := (setting? env "DEEP_APP_ROOT").or c.appRoot }
  let time ← number? env "DEEP_MAX_TP_PROCESS_TIME_MS"
  let threads ← number? env "DEEP_WORKER_THREADS"
  let capacity ← number? env "DEEP_QUEUE_CAPACITY"
  return { named with
    maxProcessTimeMs := time.getD c.maxProcessTimeMs
    workerThreads := (threads.map (max · 1)).getD c.workerThreads
    queueCapacity := (capacity.map (max · 1)).getD c.queueCapacity }

end AgentConfig
end LiveProbe
