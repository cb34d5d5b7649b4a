/-!
# Faults of configurations

Why a tracepoint or a configuration file is refused, with the wording, the code
and the advice for each cause.
-/

namespace LiveProbe

/-- Causes of refusal. -/
inductive ConfigError
  | invalidArgument (key value reason : String)
  | missingArgument (id key : String)
  | invalidFile (path reason : String)
  | unparsable (reason : String)
  deriving DecidableEq, Repr

namespace ConfigError

/-- The wording of a fault. -/
def message : ConfigError → String
  | invalidArgument key value reason => s!"Invalid value '{value}' for argument '{key}': {reason}"
  | missingArgument id key => s!"Tracepoint {id} is missing '{key}'"
  | invalidFile path reason => s!"Cannot read config file {path}: {reason}"
  | unparsable reason => s!"Config parse error: {reason}"

/-- The code under which a fault is reported. -/
def code : ConfigError → String
  | invalidArgument .. => "config::invalid_argument"
  | missingArgument .. => "config::missing_argument"
  | invalidFile .. => "config::invalid_file"
  | unparsable .. => "config::parse"

/-- Advice on a fault. -/
def help : ConfigError → String
  | invalidArgument .. => "Check the tracepoint arguments sent by the collector."
  | missingArgument .. => "Method stages and method spans need a 'method_name' argument."
  | invalidFile .. => "Check that the file exists and is readable."
  | unparsable .. => "The file must be a JSON object of agent settings."

end ConfigError
end LiveProbe
