import LiveProbe.Config.Tracepoint
import LiveProbe.Variable.Record

/-!
# Settings of a capture

The bounds of one capture, merged over all tracepoints that fire in it. The most
permissive setting of each wins.

**Results.**
* `union_comm`, `union_assoc`, `union_self`: merging does not depend on order or
  repetition.
-/

namespace LiveProbe

/-- Bounds and policy of one capture. -/
structure CaptureConfig where
  maxVarDepth : Nat
  maxVariables : Nat
  maxCollectionSize : Nat
  maxStringLength : Nat
  maxProcessTimeMs : Nat
  frameType : FrameType
  stackType : StackType
  deriving DecidableEq, Repr

namespace CaptureConfig

/-- The settings where nothing else is asked for. -/
def standard : CaptureConfig where
  maxVarDepth := Limits.varDepth
  maxVariables := Limits.variableCount
  maxCollectionSize := Limits.collectionSize
  maxStringLength := Limits.stringLength
  maxProcessTimeMs := Limits.processTimeMs
  frameType := .singleFrame
  stackType := .stack

/-- What a tracepoint asks for; numbers that it leaves open are the defaults. -/
def requested (defaults : CaptureConfig) (tp : Tracepoint) : CaptureConfig where
  maxVarDepth := tp.maxVarDepth?.getD defaults.maxVarDepth
  maxVariables := tp.maxVariables?.getD defaults.maxVariables
  maxCollectionSize := tp.maxCollectionSize?.getD defaults.maxCollectionSize
  maxStringLength := tp.maxStringLength?.getD defaults.maxStringLength
  maxProcessTimeMs := tp.maxProcessTimeMs?.getD defaults.maxProcessTimeMs
  frameType := tp.frameType
  stackType := tp.stackType

/-- The larger of each setting. -/
def union (a b : CaptureConfig) : CaptureConfig where
  maxVarDepth := max a.maxVarDepth b.maxVarDepth
  maxVariables := max a.maxVariables b.maxVariables
  maxCollectionSize := max a.maxCollectionSize b.maxCollectionSize
  maxStringLength := max a.maxStringLength b.maxStringLength
  maxProcessTimeMs := max a.maxProcessTimeMs b.maxProcessTimeMs
  frameType := a.frameType.max b.frameType
  stackType := a.stackType.max b.stackType

/-- The union of what the tracepoints ask for; the defaults where there are none. -/
def merged (defaults : CaptureConfig) : List Tracepoint → CaptureConfig
  | [] => defaults
  | tp :: tps => tps.foldl (fun acc tp => acc.union (requested defaults tp)) (requested defaults tp)

/-- The bounds of the walks. -/
def walkLimits (c : CaptureConfig) : WalkLimits :=
  ⟨c.maxVarDepth, c.maxVariables, c.maxCollectionSize, c.maxStringLength⟩

theorem union_comm (a b : CaptureConfig) : a.union b = b.union a := by
  have hf : a.frameType.max b.frameType = b.frameType.max a.frameType := by
    cases a.frameType <;> cases b.frameType <;> rfl
  have hs : a.stackType.max b.stackType = b.stackType.max a.stackType := by
    cases a.stackType <;> cases b.stackType <;> rfl
  simp only [union, hf, hs, Nat.max_comm]

theorem union_assoc (a b c : CaptureConfig) : (a.union b).union c = a.union (b.union c) := by
  have hf : (a.frameType.max b.frameType).max c.frameType =
      a.frameType.max (b.frameType.max c.frameType) := by
    cases a.frameType <;> cases b.frameType <;> cases c.frameType <;> rfl
  have hs : (a.stackType.max b.stackType).max c.stackType =
      a.stackType.max (b.stackType.max c.stackType) := by
    cases a.stackType <;> cases b.stackType <;> cases c.stackType <;> rfl
  simp only [union, hf, hs, Nat.max_assoc]

theorem union_self (a : CaptureConfig) : a.union a = a := by
  cases a with
  | mk _ _ _ _ _ f s => cases f <;> cases s <;> simp [union, FrameType.max, StackType.max]

end CaptureConfig
end LiveProbe
