import LiveProbe.Config.Codec
import LiveProbe.Snapshot.Basic

/-!
# Snapshots in JSON

Writing and reading of snapshots. A snapshot that is read is complete.
-/

namespace LiveProbe

open Json

/-- A member that is left out where the list is empty. -/
def optionalList {α : Type} (name : String) (write : α → Json) (xs : List α) :
    List (String × Json) :=
  if xs.isEmpty then [] else [(name, .array (xs.map write))]

/-- A member with a number that is left out where there is none. -/
def optionalWord (name : String) (n : Option UInt32) : List (String × Json) :=
  optional name (fun n => .int n.toNat) n

namespace VariableId

/-- A reference as JSON. -/
def toJson (v : VariableId) : Json :=
  ofMembers ([("id", ofString v.id), ("name", ofString v.name)] ++
    optionalList "modifiers" ofString v.modifiers ++
    optional "original_name" ofString v.originalName)

/-- The reference of a JSON value. -/
def ofJson? (j : Json) : Option VariableId := do
  let [id, name, modifiers, originalName] ←
    fields? ["id", "name", "modifiers", "original_name"] j | none
  return ⟨← required text? id, ← required text? name, ← orElse [] (list? text?) modifiers,
    ← nullable text? originalName⟩

end VariableId

namespace Variable

/-- A record as JSON. -/
def toJson (v : Variable) : Json :=
  ofMembers [("type", ofString v.typeName), ("value", ofString v.value), ("hash", ofString v.hash),
    ("children", .array (v.children.toList.map VariableId.toJson)),
    ("truncated", .bool v.truncated)]

/-- The record of a JSON value. -/
def ofJson? (j : Json) : Option Variable := do
  let [typeName, value, hash, children, truncated] ←
    fields? ["type", "value", "hash", "children", "truncated"] j | none
  return ⟨← required text? typeName, ← required text? value, ← required text? hash,
    (← orElse [] (list? VariableId.ofJson?) children).toArray, ← orElse false bool? truncated⟩

end Variable

namespace StackFrame

/-- The fields of a frame, in order. -/
def fieldNames : List String :=
  ["file_name", "short_path", "method_name", "line_number", "class_name", "is_async",
    "column_number", "transpiled_file_name", "transpiled_line_number",
    "transpiled_column_number", "variables", "app_frame"]

/-- A frame as JSON. -/
def toJson (f : StackFrame) : Json :=
  ofMembers ([("file_name", ofString f.fileName), ("short_path", ofString f.shortPath),
    ("method_name", ofString f.methodName), ("line_number", .int f.lineNumber.toNat)] ++
    optional "class_name" ofString f.className ++ [("is_async", .bool f.isAsync)] ++
    optionalWord "column_number" f.columnNumber ++
    optional "transpiled_file_name" ofString f.mappedFileName ++
    optionalWord "transpiled_line_number" f.mappedLineNumber ++
    optionalWord "transpiled_column_number" f.mappedColumnNumber ++
    [("variables", .array (f.locals.map VariableId.toJson)), ("app_frame", .bool f.appFrame)])

/-- The frame of a JSON value. -/
def ofJson? (j : Json) : Option StackFrame := do
  let [file, short, method, line, className, isAsync, column, mappedFile, mappedLine, mappedColumn,
    locals, appFrame] ← fields? fieldNames j | none
  return {
    fileName := ← required text? file
    shortPath := ← required text? short
    methodName := ← required text? method
    lineNumber := ← required word32? line
    className := ← nullable text? className
    isAsync := ← orElse false bool? isAsync
    columnNumber := ← nullable word32? column
    mappedFileName := ← nullable text? mappedFile
    mappedLineNumber := ← nullable word32? mappedLine
    mappedColumnNumber := ← nullable word32? mappedColumn
    locals := ← orElse [] (list? VariableId.ofJson?) locals
    appFrame := ← required bool? appFrame }

end StackFrame

namespace WatchResult

/-- A watch as JSON. -/
def toJson (w : WatchResult) : Json :=
  ofMembers ([("expression", ofString w.expression)] ++
    optional "good_result" VariableId.toJson w.value ++
    optional "error_result" ofString w.fault ++ [("source", ofString w.source.name)])

/-- The watch of a JSON value. -/
def ofJson? (j : Json) : Option WatchResult := do
  let [expression, value, fault, source] ←
    fields? ["expression", "good_result", "error_result", "source"] j | none
  return ⟨← required text? expression, ← nullable VariableId.ofJson? value,
    ← nullable text? fault, ← required (named? WatchSource.parse?) source⟩

end WatchResult

namespace AttributeValue

/-- A value as JSON. -/
def toJson : AttributeValue → Json
  | .bool b => .bool b
  | .int i => .int i.toInt
  | .str s => ofString s

/-- The value of a JSON value. -/
def ofJson? (j : Json) : Option AttributeValue :=
  match j with
  | .bool b => some (.bool b)
  | .str (some s) => some (.str s)
  | j => (intIn? .signed64 j).map fun n => .int (Int64.ofInt n)

end AttributeValue

namespace Resource

/-- A resource as JSON. -/
def toJson (r : Resource) : Json := ofMembers [("attributes", ofMap ofString r.attributes)]

/-- The resource of a JSON value. -/
def ofJson? (j : Json) : Option Resource := do
  let [attributes] ← fields? ["attributes"] j | none
  return ⟨← required (map? text?) attributes⟩

end Resource

namespace Snapshot

/-- The fields of a snapshot, in order. -/
def fieldNames : List String :=
  ["id", "tracepoint", "ts", "duration_nanos", "resource", "frames", "watches", "attributes",
    "var_lookup", "log_msg"]

/-- A snapshot as JSON. -/
def toJson (s : Snapshot) : Json :=
  ofMembers ([("id", ofString s.id), ("tracepoint", s.tracepoint.toJson), ("ts", .int s.ts),
    ("duration_nanos", .int s.durationNanos), ("resource", s.resource.toJson),
    ("frames", .array (s.frames.map StackFrame.toJson)),
    ("watches", .array (s.watches.map WatchResult.toJson)),
    ("attributes", ofMap AttributeValue.toJson s.attributes),
    ("var_lookup", ofMap Variable.toJson s.lookup)] ++ optional "log_msg" ofString s.logMsg)

/-- The snapshot of a JSON value. -/
def ofJson? (j : Json) : Option Snapshot := do
  let [id, tracepoint, ts, duration, resource, frames, watches, attributes, lookup, logMsg] ←
    fields? fieldNames j | none
  return {
    id := ← required text? id
    tracepoint := ← required Tracepoint.ofJson? tracepoint
    ts := ← required nat64? ts
    durationNanos := ← required nat64? duration
    resource := ← required Resource.ofJson? resource
    frames := ← required (list? StackFrame.ofJson?) frames
    watches := ← required (list? WatchResult.ofJson?) watches
    attributes := ← required (map? AttributeValue.ofJson?) attributes
    lookup := ← required (map? Variable.ofJson?) lookup
    logMsg := ← nullable text? logMsg
    isOpen := false }

/-- The snapshot of a text. -/
def parse? (text : String) : Option Snapshot := do ofJson? (← Json.parse? text)

end Snapshot
end LiveProbe
