import LiveProbe.Config.Error
import LiveProbe.Config.Setting
import LiveProbe.Limits
import LiveProbe.SortedMap
import LiveProbe.Text.Blank
import LiveProbe.Text.Numeral

/-!
# Tracepoints

Capture instructions and the typed reading of their arguments.

**Reading.** An argument of blanks counts as absent. A malformed argument is a
fault for `validate`; the getters take the default in its place.
-/

namespace LiveProbe

/-- A label of a metric, fixed or evaluated at each capture. -/
structure LabelExpression where
  key : String
  fixed : Option String
  expression : Option String
  deriving DecidableEq, Repr

/-- A metric that is emitted whenever its tracepoint fires. Without an expression
the value is one. -/
structure MetricDefinition where
  name : String
  labels : List LabelExpression
  metricType : MetricType
  expression : Option String
  scope : Option String
  help : Option String
  unit : Option String
  deriving DecidableEq, Repr

/-- A capture instruction. -/
structure Tracepoint where
  id : String
  path : String
  lineNo : UInt32
  args : SortedMap String
  watches : List String
  metrics : List MetricDefinition
  deriving DecidableEq

/-- The arguments that are understood. -/
inductive Argument
  | fireCount | firePeriod | windowStart | windowEnd | condition | frameType | stackType
  | snapshot | logMsg | span | methodName | stage
  | maxVarDepth | maxVariables | maxCollectionSize | maxStringLength | maxProcessTime
  deriving DecidableEq, Repr

/-- The name of an argument. -/
def Argument.key : Argument → String
  | fireCount => "fire_count"
  | firePeriod => "fire_period"
  | windowStart => "window_start"
  | windowEnd => "window_end"
  | condition => "condition"
  | frameType => "frame_type"
  | stackType => "stack_type"
  | snapshot => "snapshot"
  | logMsg => "log_msg"
  | span => "span"
  | methodName => "method_name"
  | stage => "stage"
  | maxVarDepth => "MAX_VAR_DEPTH"
  | maxVariables => "MAX_VARIABLES"
  | maxCollectionSize => "MAX_COLLECTION_SIZE"
  | maxStringLength => "MAX_STRING_LENGTH"
  | maxProcessTime => "MAX_TP_PROCESS_TIME"

/-- What the names of attributes begin with. -/
def attributeLead : String := "attr."

namespace Tracepoint

/-- The trimmed text of an argument, if any is left. -/
def arg? (tp : Tracepoint) (a : Argument) : Option String :=
  match tp.args.get? a.key with
  | none => none
  | some raw => if Text.isBlankText raw then none else some (Text.trim raw)

/-- The value of an argument, if it is present. -/
def typed {α : Type} (tp : Tracepoint) (a : Argument) (read : String → Except String α) :
    Except ConfigError (Option α) :=
  match tp.arg? a with
  | none => .ok none
  | some raw =>
    match read raw with
    | .ok value => .ok (some value)
    | .error reason => .error (.invalidArgument a.key raw reason)

/-- The value of an argument, or nothing where it is absent or malformed. -/
def lenient? {α : Type} (tp : Tracepoint) (a : Argument) (read : String → Except String α) :
    Option α :=
  match tp.typed a read with
  | .ok value => value
  | .error _ => none

/-- Reads a signed integer. -/
def readSigned (raw : String) : Except String Int :=
  (Text.readInt .signed64 raw.toList).mapError Text.NumeralFault.message

/-- Reads an unsigned integer. -/
def readSize (raw : String) : Except String Nat :=
  ((Text.readInt .unsigned64 raw.toList).mapError Text.NumeralFault.message).map Int.toNat

/-- Reads a name. -/
def readName {α : Type} (parse? : String → Option α) (raw : String) : Except String α :=
  match parse? raw with
  | some value => .ok value
  | none => .error "unrecognised value"

/-! ### Typed arguments -/

/-- Largest number of firings. -/
def fireCount (tp : Tracepoint) : Int := (tp.lenient? .fireCount readSigned).getD Limits.fireCount

/-- Least milliseconds between firings. -/
def firePeriodMs (tp : Tracepoint) : Int :=
  (tp.lenient? .firePeriod readSigned).getD Limits.firePeriodMs

/-- Start of the window in milliseconds; zero sets no bound. -/
def windowStartMs (tp : Tracepoint) : Int := (tp.lenient? .windowStart readSigned).getD 0

/-- End of the window in milliseconds; zero sets no bound. -/
def windowEndMs (tp : Tracepoint) : Int := (tp.lenient? .windowEnd readSigned).getD 0

/-- The guard of the tracepoint. -/
def condition? (tp : Tracepoint) : Option String := tp.arg? .condition

/-- The frames whose variables are expanded. -/
def frameType (tp : Tracepoint) : FrameType :=
  (tp.lenient? .frameType (readName FrameType.parse?)).getD .singleFrame

/-- The frames that are recorded. -/
def stackType (tp : Tracepoint) : StackType :=
  (tp.lenient? .stackType (readName StackType.parse?)).getD .stack

/-- A snapshot is collected. -/
def collectsSnapshot (tp : Tracepoint) : Bool := tp.arg? .snapshot != some "no_collect"

/-- The template of the message. -/
def logMsg? (tp : Tracepoint) : Option String := tp.arg? .logMsg

/-- The span that is opened. -/
def span? (tp : Tracepoint) : Option SpanType := tp.lenient? .span (readName SpanType.parse?)

/-- The name of the method. -/
def methodName? (tp : Tracepoint) : Option String := tp.arg? .methodName

/-- Where the tracepoint fires. A method without a line is taken at its start. -/
def stage (tp : Tracepoint) : Stage :=
  match tp.lenient? .stage (readName Stage.parse?) with
  | some stage => stage
  | none => if tp.methodName?.isSome && tp.lineNo == 0 then .methodStart else .lineStart

/-- The depth of variables asked for. -/
def maxVarDepth? (tp : Tracepoint) : Option Nat := tp.lenient? .maxVarDepth readSize

/-- The number of variables asked for. -/
def maxVariables? (tp : Tracepoint) : Option Nat := tp.lenient? .maxVariables readSize

/-- The number of items asked for. -/
def maxCollectionSize? (tp : Tracepoint) : Option Nat := tp.lenient? .maxCollectionSize readSize

/-- The length of texts asked for. -/
def maxStringLength? (tp : Tracepoint) : Option Nat := tp.lenient? .maxStringLength readSize

/-- The time for collecting asked for, in milliseconds. -/
def maxProcessTimeMs? (tp : Tracepoint) : Option Nat := tp.lenient? .maxProcessTime readSize

/-- The attributes given by the user, without what their names begin with. -/
def attributes (tp : Tracepoint) : List (String × String) :=
  tp.args.entries.filterMap fun e =>
    if attributeLead.toList.isPrefixOf e.1.toList then
      some (String.ofList (e.1.toList.drop attributeLead.toList.length), e.2)
    else none

/-! ### Validation -/

/-- A fire count below that of "no limit" is refused. -/
def checkFireCount : Option Int → Except ConfigError Unit
  | none => .ok ()
  | some count =>
    if count < Limits.unlimitedFireCount then
      .error (.invalidArgument Argument.fireCount.key (toString count) "use -1 for no limit")
    else .ok ()

/-- The snapshot argument has two values. -/
def checkSnapshot (tp : Tracepoint) : Except ConfigError Unit :=
  match tp.arg? .snapshot with
  | none => .ok ()
  | some raw =>
    if raw = "collect" || raw = "no_collect" then .ok ()
    else
      .error (.invalidArgument Argument.snapshot.key raw "expected 'collect' or 'no_collect'")

/-- Stages of methods, and spans of methods without a line, need a method. -/
def needsMethod (tp : Tracepoint) (span : Option SpanType) : Bool :=
  tp.stage.isMethod || (span == some .method && tp.lineNo == 0)

/-- The first fault of the arguments, if there is any. -/
def validate (tp : Tracepoint) : Except ConfigError Unit := do
  checkFireCount (← tp.typed .fireCount readSigned)
  discard (tp.typed .firePeriod readSigned)
  discard (tp.typed .windowStart readSigned)
  discard (tp.typed .windowEnd readSigned)
  discard (tp.typed .frameType (readName FrameType.parse?))
  discard (tp.typed .stackType (readName StackType.parse?))
  discard (tp.typed .stage (readName Stage.parse?))
  let span ← tp.typed .span (readName SpanType.parse?)
  discard (tp.typed .maxVarDepth readSize)
  discard (tp.typed .maxVariables readSize)
  discard (tp.typed .maxCollectionSize readSize)
  discard (tp.typed .maxStringLength readSize)
  discard (tp.typed .maxProcessTime readSize)
  tp.checkSnapshot
  if tp.needsMethod span && tp.methodName?.isNone then
    throw (.missingArgument tp.id Argument.methodName.key)

end Tracepoint
end LiveProbe
