import LiveProbe.Expr.Eval

/-!
# Frames of the observed program

Function activations as the observed program reports them.
-/

namespace LiveProbe

/-- Where a line of generated code was written. -/
structure SourceMapping where
  file : String
  line : UInt32
  column : Option UInt32
  deriving DecidableEq, Repr

/-- One function activation at its current line. -/
structure Activation where
  file : String
  function : String
  line : UInt32
  /-- The same for all lines of one activation. -/
  identity : Nat
  /-- The local names; `none` where asking for them panics. -/
  locals : Option (List (String × Ref))
  column : Option UInt32
  isAsync : Bool
  mapping : Option SourceMapping
  deriving DecidableEq, Repr

/-- An activation with those that called it, innermost first. -/
structure HostFrame where
  top : Activation
  callers : List Activation
  deriving DecidableEq, Repr

namespace HostFrame

/-- The stack from the innermost activation outwards. -/
def stack (f : HostFrame) : List Activation := f.top :: f.callers

/-- The same activation at another line. -/
def atLine (f : HostFrame) (line : UInt32) : HostFrame := { f with top := { f.top with line := line } }

/-- What expressions see of the activation; `none` where asking panics. -/
def bindings? (f : HostFrame) : Option Bindings := f.top.locals.map Bindings.mk

end HostFrame
end LiveProbe
