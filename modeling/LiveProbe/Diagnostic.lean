/-!
# Diagnostics

Lines in which the agent reports on itself.
-/

namespace LiveProbe

/-- A warning tells of something left out, an error of a panic that was contained. -/
inductive Severity
  | warning | error
  deriving DecidableEq, Repr

/-- Occasions for a line. -/
inductive Diagnostic
  | invalidTracepoint
  | listenerPanicked
  | actionPanicked
  | metricNotNumeric
  | metricFailed
  | metricProcessorPanicked
  | deliveryFailed
  | deliveryPanicked
  | hookPanicked
  | pluginExcluded
  | drainTimedOut
  deriving DecidableEq, Repr

namespace Diagnostic

/-- The severity of a line. -/
def severity : Diagnostic → Severity
  | actionPanicked | metricProcessorPanicked | deliveryPanicked | hookPanicked => .error
  | _ => .warning

/-- The wording of a line. -/
def message : Diagnostic → String
  | invalidTracepoint => "Skipping invalid tracepoint"
  | listenerPanicked => "Configuration listener panicked"
  | actionPanicked => "Action panicked"
  | metricNotNumeric => "Metric expression is not numeric"
  | metricFailed => "Metric expression failed"
  | metricProcessorPanicked => "Metric processor panicked"
  | deliveryFailed => "Failed to finalize result"
  | deliveryPanicked => "Result finalization panicked"
  | hookPanicked => "Trace hook panicked, event ignored"
  | pluginExcluded => "Excluding plugin that failed to initialize"
  | drainTimedOut => "Task handler shutdown timed out, detaching workers"

end Diagnostic
end LiveProbe
