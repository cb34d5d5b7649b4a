/-!
# Limits

Bounds and defaults that the whole agent shares.
-/

namespace LiveProbe
namespace Limits

/-! ### Expressions and values -/

/-- Most inner nodes on a path of a syntax tree. -/
def expressionDepth : Nat := 100

/-- Most containers open at once in equality, membership and text. -/
def valueNesting : Nat := 100

/-- Most parsed expressions kept before the table is reset. -/
def expressionCache : Nat := 512

/-! ### Capture -/

/-- Depth of the variable tree below a root. -/
def varDepth : Nat := 5

/-- Distinct variables in one capture. -/
def variableCount : Nat := 1000

/-- Children of one sequence or set. -/
def collectionSize : Nat := 10

/-- Characters of one value's text. -/
def stringLength : Nat := 1024

/-- Milliseconds for collecting frames and variables. -/
def processTimeMs : Nat := 100

/-! ### Firing -/

/-- Firings of one action. -/
def fireCount : Int := 1

/-- The fire count that sets no limit. -/
def unlimitedFireCount : Int := -1

/-- Milliseconds between two firings of one action. -/
def firePeriodMs : Int := 1000

/-! ### Delivery -/

/-- Workers that deliver in the background. -/
def workerThreads : Nat := 2

/-- Deliveries that may wait. -/
def queueCapacity : Nat := 1024

/-- Milliseconds for outstanding deliveries at shutdown. -/
def shutdownTimeoutMs : Nat := 5000

/-- What every tracepoint message begins with. -/
def logLead : String := "[deep] "

/-- Nanoseconds in a millisecond. -/
def nanosPerMilli : Nat := 1000000

end Limits
end LiveProbe
