import LiveProbe.Capture.Config
import LiveProbe.Frame.Host
import LiveProbe.Frame.InApp
import LiveProbe.Variable.Walk

/-!
# Collected stacks

Records of the frames of a stack, with the variables of those frames that the
settings ask for.

**Algorithm.** The stack is followed outwards. Before the variables of a frame are
walked, the time budget is asked; all frames share one lookup table.

**Results.**
* `processFrame_of_none`, `processFrame_of_bare`, `processFrame_of_walked`: all that
  processing a frame can do.
* `processAll_length`: without a panic there is one record per frame.
-/

namespace LiveProbe

/-- Record of one frame. -/
structure StackFrame where
  fileName : String
  shortPath : String
  methodName : String
  lineNumber : UInt32
  className : Option String
  isAsync : Bool
  columnNumber : Option UInt32
  mappedFileName : Option String
  mappedLineNumber : Option UInt32
  mappedColumnNumber : Option UInt32
  locals : List VariableId
  appFrame : Bool
  deriving DecidableEq, Repr

/-- What collecting has used up so far. -/
structure CaptureState where
  table : VariableTable
  budget : Budget

namespace Stack

/-- The class of a method, told by its first receiver `self` or `cls`. An object
under the name `cls` is a class and shows itself as it likes. -/
def className? (h : Heap) (locals : List (String × Ref)) : Option String :=
  match locals.find? fun p => p.1 == "self" || p.1 == "cls" with
  | none => none
  | some (name, r) =>
    match h.read r with
    | .object typeName _ text => if name = "self" then some typeName else some (text.getD typeName)
    | _ => none

/-- The variables of the frame at a depth are asked for. -/
def wanted (t : FrameType) (depth : Nat) : Bool :=
  match t with
  | .noFrame => false
  | .singleFrame => depth == 0
  | .allFrame => true

/-- The record of an activation with its variables. -/
def record (h : Heap) (rules : InApp) (a : Activation) (locals : List (String × Ref))
    (walked : List VariableId) : StackFrame where
  fileName := a.file
  shortPath := rules.shortPath a.file
  methodName := a.function
  lineNumber := a.line
  className := className? h locals
  isAsync := a.isAsync
  columnNumber := a.column
  mappedFileName := a.mapping.map SourceMapping.file
  mappedLineNumber := a.mapping.map SourceMapping.line
  mappedColumnNumber := a.mapping.bind SourceMapping.column
  locals := walked
  appFrame := rules.isAppFrame a.file

/-- Whether the variables of a frame are walked, and the budget after asking. -/
def mayExpand (config : CaptureConfig) (depth : Nat) (budget : Budget) : Bool × Budget :=
  if wanted config.frameType depth then (!budget.exceeded, budget.spend) else (false, budget)

/-- The record of the frame at a depth; `none` where asking for its locals panics. -/
def processFrame (h : Heap) (config : CaptureConfig) (rules : InApp) (depth : Nat)
    (a : Activation) (s : CaptureState) : Option StackFrame × CaptureState :=
  let (expand, budget) := mayExpand config depth s.budget
  match a.locals with
  | none => (none, { s with budget := budget })
  | some locals =>
    if expand then
      let (walked, table, budget) := walkAll h config.walkLimits locals s.table budget
      (some (record h rules a locals walked), ⟨table, budget⟩)
    else (some (record h rules a locals []), { s with budget := budget })

/-- The records of the frames from a depth outwards; `none` after a panic. -/
def processAll (h : Heap) (config : CaptureConfig) (rules : InApp) (depth : Nat) :
    List Activation → CaptureState → Option (List StackFrame) × CaptureState
  | [], s => (some [], s)
  | a :: rest, s =>
    match processFrame h config rules depth a s with
    | (none, s) => (none, s)
    | (some frame, s) =>
      let (frames, s) := processAll h config rules (depth + 1) rest s
      (frames.map (frame :: ·), s)

/-- The frames that are recorded. -/
def recorded (t : StackType) (f : HostFrame) : List Activation :=
  match t with
  | .noStack => [f.top]
  | .stack => f.stack

/-- Collects the stack of a frame; `none` after a panic. -/
def collect (h : Heap) (config : CaptureConfig) (rules : InApp) (f : HostFrame)
    (s : CaptureState) : Option (List StackFrame) × CaptureState :=
  processAll h config rules 0 (recorded config.stackType f) s

section Equations

variable {h : Heap} {config : CaptureConfig} {rules : InApp} {depth : Nat} {a : Activation}
  {rest : List Activation} {s s' : CaptureState} {frame : StackFrame}

theorem processFrame_of_none
    (ha : a.locals = none) :
    processFrame h config rules depth a s =
      (none, { s with budget := (mayExpand config depth s.budget).2 }) := by
  rw [processFrame, ha]

theorem processFrame_of_bare
    {locals : List (String × Ref)} {budget : Budget}
    (ha : a.locals = some locals)
    (hexpand : mayExpand config depth s.budget = (false, budget)) :
    processFrame h config rules depth a s =
      (some (record h rules a locals []), { s with budget := budget }) := by
  rw [processFrame, ha, hexpand]
  rfl

theorem processFrame_of_walked
    {locals : List (String × Ref)} {budget left : Budget} {walked : List VariableId}
    {table : VariableTable}
    (ha : a.locals = some locals)
    (hexpand : mayExpand config depth s.budget = (true, budget))
    (hwalk : walkAll h config.walkLimits locals s.table budget = (walked, table, left)) :
    processFrame h config rules depth a s =
      (some (record h rules a locals walked), ⟨table, left⟩) := by
  rw [processFrame, ha, hexpand]
  simp only [hwalk, if_true]

theorem processAll_of_none
    (hframe : (processFrame h config rules depth a s).1 = none) :
    processAll h config rules depth (a :: rest) s =
      (none, (processFrame h config rules depth a s).2) := by
  rw [processAll]
  rcases hfirst : processFrame h config rules depth a s with ⟨_ | frame, s'⟩
  · rfl
  · rw [hfirst] at hframe
    cases hframe

theorem processAll_of_some
    (hframe : processFrame h config rules depth a s = (some frame, s')) :
    processAll h config rules depth (a :: rest) s =
      ((processAll h config rules (depth + 1) rest s').1.map (frame :: ·),
        (processAll h config rules (depth + 1) rest s').2) := by
  rw [processAll, hframe]

end Equations

theorem processAll_length {h : Heap} {config : CaptureConfig} {rules : InApp} {depth : Nat}
    {stack : List Activation} {s : CaptureState} {frames : List StackFrame}
    (hf : (processAll h config rules depth stack s).1 = some frames) :
    frames.length = stack.length := by
  induction stack generalizing depth s frames with
  | nil =>
    rw [processAll] at hf
    cases hf
    rfl
  | cons a rest ih =>
    rcases hframe : processFrame h config rules depth a s with ⟨_ | frame, s'⟩
    · rw [processAll_of_none (congrArg Prod.fst hframe)] at hf
      cases hf
    · rw [processAll_of_some hframe] at hf
      obtain ⟨behind, hbehind, rfl⟩ := Option.map_eq_some_iff.1 hf
      rw [List.length_cons, List.length_cons, ih hbehind]

end Stack
end LiveProbe
