import LiveProbe.Config.Error
import LiveProbe.Expr.Error

/-!
# Faults of the agent

Why work is refused or fails, with the wording, the code and the advice for each
cause.
-/

namespace LiveProbe

/-- Faults of the pool of workers. -/
inductive TaskError
  | shutDown
  | queueFull (capacity : Nat)
  | drainTimeout (pending : Nat)
  | spawn (reason : String)
  deriving DecidableEq, Repr

/-- Faults of plugins. -/
inductive PluginError
  | initialization (name reason : String)
  | rejected (name reason : String)
  deriving DecidableEq, Repr

/-- All faults of the agent. -/
inductive AgentError
  | eval (error : EvalError)
  | config (error : ConfigError)
  | task (error : TaskError)
  | plugin (error : PluginError)
  | push (reason : String)
  | finalize (reason : String)
  | io (reason : String)
  deriving DecidableEq, Repr

namespace TaskError

/-- The wording of a fault. -/
def message : TaskError → String
  | shutDown => "Task handler is shut down"
  | queueFull capacity => s!"Task queue is full (capacity {capacity})"
  | drainTimeout pending => s!"Shutdown timed out with {pending} task(s) outstanding"
  | spawn reason => "Failed to spawn worker thread: " ++ reason

/-- The code under which a fault is reported. -/
def code : TaskError → String
  | shutDown => "task::shut_down"
  | queueFull _ => "task::queue_full"
  | drainTimeout _ => "task::drain_timeout"
  | spawn _ => "task::spawn"

/-- Advice on a fault. -/
def help : TaskError → String
  | shutDown =>
    "Work was submitted after shutdown. Stop producing work before shutting the agent down."
  | queueFull _ =>
    "The transport is not keeping up. Raise the queue capacity or the worker count."
  | drainTimeout _ =>
    "Outstanding tasks keep running on detached workers. Raise the shutdown timeout."
  | spawn _ => "The process may have hit its thread limit."

end TaskError

namespace PluginError

/-- The wording of a fault. -/
def message : PluginError → String
  | initialization name reason => s!"Plugin '{name}' failed to initialize: {reason}"
  | rejected name reason => s!"Plugin '{name}' rejected the request: {reason}"

/-- The code under which a fault is reported. -/
def code : PluginError → String
  | initialization .. => "plugin::initialization"
  | rejected .. => "plugin::rejected"

/-- Advice on a fault. -/
def help : PluginError → String
  | initialization .. =>
    "The plugin is excluded from the active set; tracing continues without it."
  | rejected .. => "Check the metric or span definition on the tracepoint."

end PluginError

namespace AgentError

/-- The wording of a fault. -/
def message : AgentError → String
  | eval e => "Expression error: " ++ e.message
  | config e => "Configuration error: " ++ e.message
  | task e => "Task error: " ++ e.message
  | plugin e => "Plugin error: " ++ e.message
  | push reason => "Push failed: " ++ reason
  | finalize reason => "Result finalization failed: " ++ reason
  | io reason => "I/O error: " ++ reason

/-- The code under which a fault is reported, that of its cause where it has one. -/
def code : AgentError → String
  | eval e => e.code
  | config e => e.code
  | task e => e.code
  | plugin e => e.code
  | push _ => "agent::push_failed"
  | finalize _ => "agent::finalize_failed"
  | io _ => "agent::io_error"

/-- Advice on a fault, where there is any. -/
def help? : AgentError → Option String
  | eval e => e.help?
  | config e => some e.help
  | task e => some e.help
  | plugin e => some e.help
  | push _ =>
    some "The snapshot could not be handed to the transport. Check the collector connection."
  | finalize _ =>
    some "A captured result could not be delivered. Other results of the same capture are unaffected."
  | io _ => some "Filesystem or I/O operation failed. Check file permissions."

end AgentError
end LiveProbe
