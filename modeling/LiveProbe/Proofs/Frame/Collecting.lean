import Mathlib.Data.List.Permutation
import LiveProbe.Frame.Stack
import LiveProbe.Proofs.Variable.Capture

/-!
# Frames of a collected stack

What is recorded of the frames of a stack when room and time run out.

The frames are recorded one after another. Each may have its locals walked, and all walks
share one lookup table and one budget of time. What one walk uses up is missing in all
later ones, but no frame is missing.

**Trace.**  `Stack.reached` is the state of collecting when a frame is reached.

**Invariant.**  A table from which collecting began has been *continued*
(`VariableTable.Continues`): its records are as they were, references of newer ones lead to
records, and the bound on the variables is kept.

**Specification.**  A record shows a frame (`Stack.Shows`) if it tells where the frame stands,
and if it refers to the first of the frame's locals, and to none unless the settings ask for
them.  It refers to all that are asked for if room and time are left when it has been made
(`Stack.Records`).

**Results.**
* `Stack.continues_processAll`: all frames of a stack continue the table, by induction on
  the stack.
* `Stack.records_processAll`: every frame is recorded, between the states in which it and the
  next one are reached.
* `Stack.exists_reached_eq`: a frame that is reached later is reached by processing frames.
* `Stack.collect_keeps_frames`: the frames of a collected stack.
-/

namespace LiveProbe

/-- The table `t` holds what `base` holds; the references of its further records lead to
records, and it is not larger than `base` or the bound. -/
structure VariableTable.Continues (base : VariableTable) (bound : Nat) (t : VariableTable) :
    Prop where
  grounded : t.IsGrounded
  closed : t.IsClosedFrom base.size
  kept : ∀ number v, base.record? number = some v → t.record? number = some v
  grown : base.size ≤ t.size
  bounded : t.size ≤ max base.size bound

namespace VariableTable

variable {base t : VariableTable}

theorem continues_refl
    (hgrounded : t.IsGrounded)
    (bound : Nat) :
    t.Continues bound t :=
  ⟨hgrounded, t.isClosedFrom_size, fun _ _ hv => hv, Nat.le_refl _, Nat.le_max_left _ _⟩

/-- A walk over bindings adds to the table and changes nothing of it. -/
theorem continues_walkAll
    {limits : WalkLimits}
    (ht : base.Continues limits.maxVariables t)
    (h : Heap) (bindings : List (String × Ref)) (budget : Budget) :
    base.Continues limits.maxVariables (walkAll h limits bindings t budget).2.1 := by
  have htracks := Walk.tracks_run h limits bindings t budget
  have hresolves := Walk.resolves_run ht.grounded ht.closed h limits bindings budget
  exact
    { grounded := hresolves.grounded
      closed := hresolves.closed
      kept := fun number v hv => htracks.kept number v (ht.kept number v hv)
      grown := ht.grown.trans htracks.grown
      bounded := htracks.bounded.trans (max_le ht.bounded (Nat.le_max_right _ _)) }

end VariableTable

namespace Stack

/-- The record of the frame at a depth tells where the frame stands. It refers to the first
of the frame's locals, and to any only if the settings ask for them. -/
structure Shows (config : CaptureConfig) (depth : Nat) (a : Activation) (frame : StackFrame) :
    Prop where
  fileName : frame.fileName = a.file
  methodName : frame.methodName = a.function
  lineNumber : frame.lineNumber = a.line
  columnNumber : frame.columnNumber = a.column
  isAsync : frame.isAsync = a.isAsync
  mappedFileName : frame.mappedFileName = a.mapping.map SourceMapping.file
  mappedLineNumber : frame.mappedLineNumber = a.mapping.map SourceMapping.line
  mappedColumnNumber : frame.mappedColumnNumber = a.mapping.bind SourceMapping.column
  names : frame.locals.map VariableId.name <+: (a.locals.getD []).map Prod.fst
  asked : frame.locals ≠ [] →
    config.frameType = .allFrame ∨ config.frameType = .singleFrame ∧ depth = 0

/-- The record of a frame, beside the states before and after it was made. -/
structure Records (config : CaptureConfig) (depth : Nat) (a : Activation) (s s' : CaptureState)
    (frame : StackFrame) : Prop where
  shows : Shows config depth a frame
  inTime : s.budget.exceeded = true → frame.locals = []
  complete : config.frameType = .allFrame ∨ config.frameType = .singleFrame ∧ depth = 0 →
    s'.table.size < config.maxVariables → s'.budget.exceeded = false →
      frame.locals.map VariableId.name = (a.locals.getD []).map Prod.fst
  resolved : ∀ root ∈ frame.locals, s'.table.Knows root.id

/-- The state in which the frame at a place of a stack is reached. -/
def reached (h : Heap) (config : CaptureConfig) (rules : InApp) (depth : Nat)
    (stack : List Activation) (s : CaptureState) (place : Nat) : CaptureState :=
  (processAll h config rules depth (stack.take place) s).2

variable {h : Heap} {config : CaptureConfig} {rules : InApp} {depth : Nat} {a : Activation}
  {rest stack : List Activation} {s s' : CaptureState} {frame : StackFrame}
  {base : VariableTable}

/-! ### Asking for the locals -/

/-- Variables are wanted for all frames, or for the top one. -/
theorem wanted_iff
    (t : FrameType) (depth : Nat) :
    wanted t depth = true ↔ t = .allFrame ∨ t = .singleFrame ∧ depth = 0 := by
  cases t <;> simp [wanted]

/-- Only frames whose variables are wanted are expanded. -/
theorem wanted_of_mayExpand
    {budget : Budget}
    (hexpand : (mayExpand config depth budget).1 = true) :
    wanted config.frameType depth = true := by
  by_contra hwanted
  rw [mayExpand, if_neg hwanted] at hexpand
  cases hexpand

/-- A budget that has run out stays so, and no locals are walked. -/
theorem mayExpand_of_exceeded
    {budget : Budget}
    (hbudget : budget.exceeded = true) :
    mayExpand config depth budget = (false, budget) := by
  rw [mayExpand, Budget.spend_of_exceeded hbudget, hbudget]
  split <;> rfl

/-- Locals that are asked for are walked unless the budget has run out. -/
theorem exceeded_of_not_mayExpand
    {budget left : Budget}
    (hwanted : wanted config.frameType depth = true)
    (hexpand : mayExpand config depth budget = (false, left)) :
    left.exceeded = true := by
  rw [mayExpand, if_pos hwanted, Prod.mk.injEq, Bool.not_eq_false'] at hexpand
  obtain ⟨hbudget, rfl⟩ := hexpand
  rw [Budget.spend_of_exceeded hbudget]
  exact hbudget

/-! ### One frame -/

theorem isSome_processFrame
    (h : Heap) (config : CaptureConfig) (rules : InApp) (depth : Nat) (a : Activation)
    (s : CaptureState) :
    (processFrame h config rules depth a s).1.isSome = a.locals.isSome := by
  cases ha : a.locals with
  | none =>
      rw [processFrame_of_none ha]
      rfl
  | some locals =>
      rcases hexpand : mayExpand config depth s.budget with ⟨_ | _, budget⟩
      · rw [processFrame_of_bare ha hexpand]
        rfl
      · rw [processFrame_of_walked ha hexpand rfl]
        rfl

theorem continues_processFrame
    (hs : base.Continues config.maxVariables s.table)
    (h : Heap) (rules : InApp) (depth : Nat) (a : Activation) :
    base.Continues config.maxVariables (processFrame h config rules depth a s).2.table := by
  cases ha : a.locals with
  | none =>
      rw [processFrame_of_none ha]
      exact hs
  | some locals =>
      rcases hexpand : mayExpand config depth s.budget with ⟨_ | _, budget⟩
      · rw [processFrame_of_bare ha hexpand]
        exact hs
      · rw [processFrame_of_walked ha hexpand rfl]
        have hbefore : base.Continues config.walkLimits.maxVariables s.table := hs
        exact VariableTable.continues_walkAll hbefore h locals budget

/-- A budget that has run out is left so. -/
theorem exceeded_of_processFrame
    (hframe : (processFrame h config rules depth a s).2 = s')
    (hs : s.budget.exceeded = true) :
    s'.budget.exceeded = true := by
  have hexpand : mayExpand config depth s.budget = (false, s.budget) := mayExpand_of_exceeded hs
  cases ha : a.locals with
  | none =>
      rw [processFrame_of_none ha, hexpand] at hframe
      rwa [← hframe]
  | some locals =>
      rw [processFrame_of_bare ha hexpand] at hframe
      rwa [← hframe]

/-- A record shows its activation, with a prefix of the names and none unless wanted. -/
theorem shows_record
    {locals : List (String × Ref)} {walked : List VariableId}
    (ha : a.locals = some locals)
    (hnames : walked.map VariableId.name <+: locals.map Prod.fst)
    (hasked : walked ≠ [] → wanted config.frameType depth = true) :
    Shows config depth a (record h rules a locals walked) where
  fileName := rfl
  methodName := rfl
  lineNumber := rfl
  columnNumber := rfl
  isAsync := rfl
  mappedFileName := rfl
  mappedLineNumber := rfl
  mappedColumnNumber := rfl
  names := by
    rw [ha]
    exact hnames
  asked hne := (wanted_iff _ _).mp (hasked hne)

/-- A frame that is processed records its activation. -/
theorem records_processFrame
    (hs : s.table.IsGrounded)
    (hframe : processFrame h config rules depth a s = (some frame, s')) :
    Records config depth a s s' frame := by
  cases ha : a.locals with
  | none =>
      rw [processFrame_of_none ha] at hframe
      cases hframe
  | some locals =>
      rcases hexpand : mayExpand config depth s.budget with ⟨_ | _, budget⟩
      · rw [processFrame_of_bare ha hexpand] at hframe
        cases hframe
        refine ⟨shows_record ha List.nil_prefix (absurd rfl), fun _ => rfl, ?_,
          List.forall_mem_nil _⟩
        intro hasked _ hleft
        have hexceeded := exceeded_of_not_mayExpand ((wanted_iff _ _).mpr hasked) hexpand
        exact absurd (hexceeded.symm.trans hleft) nofun
      · rw [processFrame_of_walked ha hexpand rfl] at hframe
        cases hframe
        have hresolves := Walk.resolves_run hs s.table.isClosedFrom_size h config.walkLimits locals
          budget
        refine ⟨shows_record ha ?_ ?_, ?_, ?_, ?_⟩
        · have hnames := Walk.names_run h config.walkLimits locals s.table budget
          exact hnames ▸ List.take_prefix _ _
        · intro _
          exact wanted_of_mayExpand (congrArg Prod.fst hexpand)
        · intro hexceeded
          rw [mayExpand_of_exceeded hexceeded] at hexpand
          cases hexpand
        · intro _ hroom hleft
          rw [ha]
          refine Walk.names_run_of_not_halted ?_
          exact Bool.or_eq_false_iff.mpr ⟨decide_eq_false (Nat.not_le_of_lt hroom), hleft⟩
        · intro root hroot
          exact hresolves.roots root (Array.mem_toList_iff.mp hroot)

/-! ### All frames -/

/-- A stack fails only where the locals of one of its frames do. -/
theorem isSome_processAll
    (h : Heap) (config : CaptureConfig) (rules : InApp) (depth : Nat) (stack : List Activation)
    (s : CaptureState) :
    (processAll h config rules depth stack s).1.isSome ↔ ∀ a ∈ stack, a.locals.isSome := by
  induction stack generalizing depth s with
  | nil =>
      rw [processAll]
      exact iff_of_true rfl (List.forall_mem_nil _)
  | cons a rest ih =>
      rw [List.forall_mem_cons, ← isSome_processFrame h config rules depth a s]
      rcases hframe : processFrame h config rules depth a s with ⟨_ | frame, s'⟩
      · rw [processAll_of_none (congrArg Prod.fst hframe)]
        simp
      · rw [processAll_of_some hframe]
        simp [ih]

theorem continues_processAll
    (hs : base.Continues config.maxVariables s.table)
    (h : Heap) (rules : InApp) (depth : Nat) (stack : List Activation) :
    base.Continues config.maxVariables (processAll h config rules depth stack s).2.table := by
  induction stack generalizing depth s with
  | nil =>
      rw [processAll]
      exact hs
  | cons a rest ih =>
      have hnext := continues_processFrame hs h rules depth a
      rcases hframe : processFrame h config rules depth a s with ⟨_ | frame, s'⟩
      · rw [processAll_of_none (congrArg Prod.fst hframe)]
        exact hnext
      · rw [hframe] at hnext
        rw [processAll_of_some hframe]
        exact ih hnext (depth + 1)

theorem reached_zero
    (stack : List Activation) (s : CaptureState) :
    reached h config rules depth stack s 0 = s := by
  rw [reached, List.take_zero, processAll]

/-- The states reached behind the first frame are those of the other frames. -/
theorem reached_succ
    (hframe : processFrame h config rules depth a s = (some frame, s'))
    (place : Nat) :
    reached h config rules depth (a :: rest) s (place + 1) =
      reached h config rules (depth + 1) rest s' place := by
  rw [reached, List.take_succ_cons, processAll_of_some hframe, reached]

theorem reached_stuck
    (hframe : (processFrame h config rules depth a s).1 = none)
    (place : Nat) :
    reached h config rules depth (a :: rest) s (place + 1) =
      (processFrame h config rules depth a s).2 := by
  rw [reached, List.take_succ_cons, processAll_of_none hframe]

/-- The last state reached is the one the collection ends with. -/
theorem reached_length
    (stack : List Activation) (s : CaptureState) :
    reached h config rules depth stack s stack.length =
      (processAll h config rules depth stack s).2 := by
  rw [reached, List.take_length]

/-- What is reached later is reached by processing further frames. -/
theorem exists_reached_eq
    {earlier later : Nat}
    (hle : earlier ≤ later) :
    ∃ depth' between, reached h config rules depth stack s later =
      (processAll h config rules depth' between
        (reached h config rules depth stack s earlier)).2 := by
  induction stack generalizing depth s earlier later with
  | nil =>
      refine ⟨depth, [], ?_⟩
      simp only [reached, List.take_nil, processAll]
  | cons a rest ih =>
      cases earlier with
      | zero =>
          refine ⟨depth, (a :: rest).take later, ?_⟩
          rw [reached_zero, reached]
      | succ earlier =>
          obtain ⟨later, rfl⟩ := Nat.exists_eq_add_of_le' (Nat.le_trans (Nat.succ_pos _) hle)
          rcases hframe : processFrame h config rules depth a s with ⟨_ | frame, s'⟩
          · have hstuck := congrArg Prod.fst hframe
            refine ⟨depth, [], ?_⟩
            rw [reached_stuck hstuck, reached_stuck hstuck, processAll]
          · rw [reached_succ hframe, reached_succ hframe]
            exact ih (Nat.le_of_succ_le_succ hle)

theorem exceeded_processAll
    (h : Heap) (config : CaptureConfig) (rules : InApp) (depth : Nat) (stack : List Activation)
    (hs : s.budget.exceeded = true) :
    (processAll h config rules depth stack s).2.budget.exceeded = true := by
  induction stack generalizing depth s with
  | nil =>
      rw [processAll]
      exact hs
  | cons a rest ih =>
      rcases hframe : processFrame h config rules depth a s with ⟨_ | frame, s'⟩
      · rw [processAll_of_none (congrArg Prod.fst hframe)]
        exact exceeded_of_processFrame rfl hs
      · rw [processAll_of_some hframe]
        exact ih (depth + 1) (exceeded_of_processFrame (congrArg Prod.snd hframe) hs)

/-- Every frame of a stack records the activation at its place, between the states reached before
and behind it. -/
theorem records_processAll
    {frames : List StackFrame} {place : Nat}
    (hs : s.table.IsGrounded)
    (hframes : (processAll h config rules depth stack s).1 = some frames)
    (hframe : frames[place]? = some frame) :
    ∃ a, stack[place]? = some a ∧
      Records config (depth + place) a (reached h config rules depth stack s place)
        (reached h config rules depth stack s (place + 1)) frame := by
  induction stack generalizing depth s frames place with
  | nil =>
      rw [processAll] at hframes
      cases hframes
      cases hframe
  | cons a rest ih =>
      rcases hfirst : processFrame h config rules depth a s with ⟨_ | first, s'⟩
      · rw [processAll_of_none (congrArg Prod.fst hfirst)] at hframes
        cases hframes
      · rw [processAll_of_some hfirst] at hframes
        obtain ⟨behind, hbehind, rfl⟩ := Option.map_eq_some_iff.mp hframes
        rw [reached_succ hfirst]
        cases place with
        | zero =>
            cases hframe
            rw [reached_zero, reached_zero]
            exact ⟨a, rfl, records_processFrame hs hfirst⟩
        | succ place =>
            have hnext := continues_processFrame
              (VariableTable.continues_refl hs config.maxVariables) h rules depth a
            rw [hfirst] at hnext
            rw [reached_succ hfirst, ← Nat.add_assoc, Nat.add_right_comm]
            exact ih hnext.grounded hbehind hframe

/-! ### The collected stack -/

/-- The frames of a collected stack: as many as the settings ask for, innermost first, each
recorded at its place, and without locals once the budget has run out.  Their references lead
to records of the table in the end. -/
structure Collects (h : Heap) (config : CaptureConfig) (rules : InApp) (f : HostFrame)
    (s : CaptureState) (frames : List StackFrame) : Prop where
  length : frames.length = if config.stackType = .noStack then 1 else f.callers.length + 1
  records : ∀ place frame, frames[place]? = some frame →
    ∃ a, f.stack[place]? = some a ∧
      Records config place a (reached h config rules 0 (recorded config.stackType f) s place)
        (reached h config rules 0 (recorded config.stackType f) s (place + 1)) frame
  inTime : ∀ earlier place frame, earlier ≤ place → frames[place]? = some frame →
    (reached h config rules 0 (recorded config.stackType f) s earlier).budget.exceeded = true →
      frame.locals = []
  resolved : ∀ frame ∈ frames, ∀ root ∈ frame.locals,
    (collect h config rules f s).2.table.Knows root.id

/-- The activations recorded are the first ones of the stack. -/
theorem recorded_isPrefix
    (t : StackType) (f : HostFrame) :
    recorded t f <+: f.stack := by
  cases t with
  | noStack => exact ⟨f.callers, rfl⟩
  | stack => exact List.prefix_refl _

theorem length_recorded
    (t : StackType) (f : HostFrame) :
    (recorded t f).length = if t = .noStack then 1 else f.callers.length + 1 := by
  cases t <;> rfl

/-- What a collection says of its frames, clause by clause. -/
theorem collects
    {f : HostFrame} {frames : List StackFrame}
    (hs : s.table.IsGrounded)
    (hframes : (collect h config rules f s).1 = some frames) :
    Collects h config rules f s frames where
  length := by
    rw [processAll_length hframes, length_recorded]
  records place frame hframe := by
    obtain ⟨a, ha, hrecords⟩ := records_processAll hs hframes hframe
    rw [Nat.zero_add] at hrecords
    obtain ⟨hplace, -⟩ := List.getElem?_eq_some_iff.mp ha
    obtain ⟨others, hstack⟩ := recorded_isPrefix config.stackType f
    refine ⟨a, ?_, hrecords⟩
    rw [← hstack, List.getElem?_append_left hplace, ha]
  inTime earlier place frame hearlier hframe hexceeded := by
    obtain ⟨a, -, hrecords⟩ := records_processAll hs hframes hframe
    obtain ⟨depth, between, hreached⟩ := exists_reached_eq (h := h) (s := s) hearlier
    refine hrecords.inTime ?_
    rw [hreached]
    exact exceeded_processAll h config rules depth between hexceeded
  resolved frame hframe root hroot := by
    obtain ⟨place, hplace⟩ := List.mem_iff_getElem?.mp hframe
    obtain ⟨a, ha, hrecords⟩ := records_processAll hs hframes hplace
    obtain ⟨hlt, -⟩ := List.getElem?_eq_some_iff.mp ha
    obtain ⟨depth, between, hreached⟩ := exists_reached_eq (h := h) (s := s) hlt
    have hbegin := VariableTable.continues_refl hs config.maxVariables
    have hafter := continues_processAll hbegin h rules 0
      ((recorded config.stackType f).take (place + 1))
    have hlast := continues_processAll
      (VariableTable.continues_refl hafter.grounded config.maxVariables) h rules depth between
    rw [collect, ← reached_length, hreached]
    exact (hrecords.resolved root hroot).mono hlast.grown

/-- Every frame is recorded, whatever room and time the locals before it have used up: a
stack comes to no record only where asking for locals panics.  Whenever a frame is reached,
and in the end, the table holds what it held at first and is within its bound. -/
theorem collect_keeps_frames
    (h : Heap) (config : CaptureConfig) (rules : InApp) (f : HostFrame)
    {s : CaptureState}
    (hgrounded : s.table.IsGrounded) :
    ((collect h config rules f s).1.isSome ↔
        ∀ a ∈ recorded config.stackType f, a.locals.isSome) ∧
      (∀ frames, (collect h config rules f s).1 = some frames →
        Collects h config rules f s frames) ∧
      (∀ place, s.table.Continues config.maxVariables
        (reached h config rules 0 (recorded config.stackType f) s place).table) ∧
      s.table.Continues config.maxVariables (collect h config rules f s).2.table := by
  have hbegin := VariableTable.continues_refl hgrounded config.maxVariables
  refine ⟨isSome_processAll h config rules 0 _ s, fun frames => collects hgrounded, ?_, ?_⟩
  · exact fun place => continues_processAll hbegin h rules 0 _
  · exact continues_processAll hbegin h rules 0 _

/-- Two frames with one and two locals. -/
def nested : HostFrame :=
  ⟨⟨"/srv/app/handler.py", "handle", 12, 1, some [("a", 1), ("b", 2)], none, false, none⟩,
    [⟨"/srv/app/main.py", "main", 40, 2, some [("c", 1)], none, true, some ⟨"main.ts", 4, none⟩⟩]⟩

/-- A table with a record that refers to none. -/
def torn : VariableTable :=
  VariableTable.empty.register 0 ⟨"str", "old", "0", #[⟨"9", "lost", [], none⟩], false⟩

/-- Time runs out behind the first local of the first frame. -/
theorem collect_keeps_frames_tripping :
    torn.IsGrounded ∧ ∃ frames,
      (collect ⟨#[.none, .int 7, .int 8]⟩ { CaptureConfig.standard with frameType := .allFrame }
        ⟨[], [], none⟩ nested ⟨torn, .questions 2⟩).1 = some frames ∧
      frames.map (fun frame => (frame.methodName, frame.locals.map VariableId.name)) =
        [("handle", ["a"]), ("main", [])] ∧
      Collects ⟨#[.none, .int 7, .int 8]⟩ { CaptureConfig.standard with frameType := .allFrame }
        ⟨[], [], none⟩ nested ⟨torn, .questions 2⟩ frames := by
  have htorn : torn.IsGrounded :=
    VariableTable.isGrounded_register VariableTable.isGrounded_empty _ _
  obtain ⟨hsome, hcollects, -⟩ :=
    collect_keeps_frames ⟨#[.none, .int 7, .int 8]⟩
      { CaptureConfig.standard with frameType := .allFrame } ⟨[], [], none⟩ nested
      (s := ⟨torn, .questions 2⟩) htorn
  obtain ⟨frames, hframes⟩ := Option.isSome_iff_exists.mp (hsome.mpr (by decide))
  have hnames : (collect ⟨#[.none, .int 7, .int 8]⟩
      { CaptureConfig.standard with frameType := .allFrame } ⟨[], [], none⟩ nested
      ⟨torn, .questions 2⟩).1.map
        (List.map fun frame => (frame.methodName, frame.locals.map VariableId.name)) =
      some [("handle", ["a"]), ("main", [])] := by
    cbv
  rw [hframes] at hnames
  exact ⟨htorn, frames, hframes, Option.some.inj hnames, hcollects frames hframes⟩

end Stack
end LiveProbe
