import LiveProbe.Delivery.Error
import LiveProbe.Report.Basic

/-!
# Reports of faults

The names of causes, and faults with their wording.
-/

namespace LiveProbe

open Json

namespace EvalError

/-- The name of a cause. -/
def cause : EvalError → String
  | unexpectedChar .. => "UnexpectedChar"
  | unterminatedString .. => "UnterminatedString"
  | invalidNumber .. => "InvalidNumber"
  | unexpectedToken .. => "UnexpectedToken"
  | unexpectedEnd => "UnexpectedEnd"
  | tooDeep .. => "TooDeep"
  | recursionLimit => "RecursionLimit"
  | unknownName .. => "UnknownName"
  | noAttribute .. => "NoAttribute"
  | keyNotFound .. => "KeyNotFound"
  | indexOutOfRange .. => "IndexOutOfRange"
  | typeMismatch .. => "TypeMismatch"
  | notCallable .. => "NotCallable"
  | arity .. => "Arity"
  | invalidConversion .. => "InvalidConversion"
  | divisionByZero => "DivisionByZero"
  | overflow => "Overflow"

/-- The report of a fault. -/
def report (e : EvalError) : Json := fault e.cause e.message

end EvalError

namespace ConfigError

/-- The name of a cause. -/
def cause : ConfigError → String
  | invalidArgument .. => "InvalidArgument"
  | missingArgument .. => "MissingArgument"
  | invalidFile .. => "InvalidFile"
  | unparsable .. => "Parse"

/-- The report of a fault. -/
def report (e : ConfigError) : Json := fault e.cause e.message

end ConfigError

namespace TaskError

/-- The name of a cause. -/
def cause : TaskError → String
  | shutDown => "ShutDown"
  | queueFull _ => "QueueFull"
  | drainTimeout _ => "DrainTimeout"
  | spawn _ => "Spawn"

/-- The report of a fault. -/
def report (e : TaskError) : Json := fault e.cause e.message

end TaskError

namespace AgentError

/-- The name of the part that failed. -/
def part : AgentError → String
  | eval _ => "Eval"
  | config _ => "Config"
  | task _ => "Task"
  | plugin _ => "Plugin"
  | push _ => "Push"
  | finalize _ => "Finalize"
  | io _ => "Io"

/-- The report of a fault with its code and advice. -/
def report (e : AgentError) : Json :=
  ofMembers [("kind", ofString e.part), ("message", ofString e.message), ("code", ofString e.code),
    ("help", ofOption ofString e.help?)]

end AgentError
end LiveProbe
