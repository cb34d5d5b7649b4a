import LiveProbe.Config.Tracepoint

/-!
# Validation and the getters

The arguments of a tracepoint are read twice: where it is validated, and in the getters,
which take a default for what they cannot read.

**Specification.** `Tracepoint.Gives`: an argument is present and not blank; its text is
what is left of it between blanks. `Argument.read?`: the value that the text of a typed
argument stands for. `Tracepoint.setting?`, `Tracepoint.default?`: what the getter of the
argument returns, and what it returns instead of a text that it cannot read.

**Results.**
* `Tracepoint.checked_of_validate`: all that a valid tracepoint has passed.
* `Tracepoint.setting?_of_validate`: the getters of a valid tracepoint return the values of
  its arguments.
* `Tracepoint.setting?_of_unreadable`, `Tracepoint.validate_of_unreadable`: a default in
  place of an argument means that the tracepoint is not valid.
-/

namespace LiveProbe

/-- Values of typed arguments. -/
inductive ArgumentValue
  | whole (n : Int)
  | size (n : Nat)
  | frames (frameType : FrameType)
  | stack (stackType : StackType)
  | stage (stage : Stage)
  | span (spanType : SpanType)
  | collects (decision : Bool)
  deriving DecidableEq, Repr

namespace Argument

open Tracepoint (readSigned readSize readName)

/-- The arguments that are more than texts. -/
def IsTyped : Argument → Prop
  | condition | logMsg | methodName => False
  | _ => True

/-- The value that a text stands for. -/
def read? (a : Argument) (text : String) : Option ArgumentValue :=
  match a with
  | fireCount | firePeriod | windowStart | windowEnd => (readSigned text).toOption.map .whole
  | frameType => (readName FrameType.parse? text).toOption.map .frames
  | stackType => (readName StackType.parse? text).toOption.map .stack
  | stage => (readName Stage.parse? text).toOption.map .stage
  | span => (readName SpanType.parse? text).toOption.map .span
  | snapshot =>
      if text = "collect" then some (.collects true)
      else if text = "no_collect" then some (.collects false)
      else none
  | maxVarDepth | maxVariables | maxCollectionSize | maxStringLength | maxProcessTime =>
      (readSize text).toOption.map .size
  | condition | logMsg | methodName => none

end Argument

namespace Tracepoint

/-- The argument is present and not blank, and this is its text without the blanks around
it. -/
def Gives (tp : Tracepoint) (a : Argument) (text : String) : Prop :=
  ∃ raw, tp.args.get? a.key = some raw ∧ (∃ c ∈ raw.toList, Text.isBlank c = false) ∧
    text = Text.trim raw

/-- What the getter of an argument returns. -/
def setting? (tp : Tracepoint) : Argument → Option ArgumentValue
  | .fireCount => some (.whole tp.fireCount)
  | .firePeriod => some (.whole tp.firePeriodMs)
  | .windowStart => some (.whole tp.windowStartMs)
  | .windowEnd => some (.whole tp.windowEndMs)
  | .frameType => some (.frames tp.frameType)
  | .stackType => some (.stack tp.stackType)
  | .stage => some (.stage tp.stage)
  | .span => tp.span?.map .span
  | .snapshot => some (.collects tp.collectsSnapshot)
  | .maxVarDepth => tp.maxVarDepth?.map .size
  | .maxVariables => tp.maxVariables?.map .size
  | .maxCollectionSize => tp.maxCollectionSize?.map .size
  | .maxStringLength => tp.maxStringLength?.map .size
  | .maxProcessTime => tp.maxProcessTimeMs?.map .size
  | .condition | .logMsg | .methodName => none

/-- What the getter of an argument returns where it has no text that it can read. -/
def default? (tp : Tracepoint) : Argument → Option ArgumentValue
  | .fireCount => some (.whole Limits.fireCount)
  | .firePeriod => some (.whole Limits.firePeriodMs)
  | .windowStart | .windowEnd => some (.whole 0)
  | .frameType => some (.frames .singleFrame)
  | .stackType => some (.stack .stack)
  | .stage =>
      some (.stage (if tp.methodName?.isSome && tp.lineNo == 0 then .methodStart else .lineStart))
  | .snapshot => some (.collects true)
  | _ => none

/-! ### One argument -/

section Typed

variable {α : Type} {tp : Tracepoint} {a : Argument} {text : String}
  {read : String → Except String α} {wrap : α → ArgumentValue}

/-- The text of an argument that is given is what all readings begin with. -/
theorem arg?_of_gives
    (h : tp.Gives a text) :
    tp.arg? a = some text := by
  obtain ⟨raw, hraw, ⟨c, hc, hblank⟩, rfl⟩ := h
  have hfull : Text.isBlankText raw = false := by
    rw [Text.isBlankText, List.all_eq_false]
    exact ⟨c, hc, by rw [hblank]; decide⟩
  rw [arg?, hraw]
  exact if_neg (by rw [hfull]; decide)

/-- The checked reading of an argument that is given. -/
theorem typed_of_gives
    (h : tp.Gives a text)
    (read : String → Except String α) :
    tp.typed a read =
      match read text with
      | .ok value => .ok (some value)
      | .error reason => .error (.invalidArgument a.key text reason) := by
  cases hread : read text with
  | ok value => simp only [typed, arg?_of_gives h, hread]
  | error reason => simp only [typed, arg?_of_gives h, hread]

/-- A checked argument has a value, and the lenient reading returns it. -/
theorem exists_value
    (hgives : tp.Gives a text)
    (htyped : ∃ r, tp.typed a read = .ok r) :
    ∃ value, read text = .ok value ∧ tp.lenient? a read = some value := by
  obtain ⟨r, htyped⟩ := htyped
  rw [lenient?, htyped]
  rw [typed_of_gives hgives] at htyped
  cases hread : read text with
  | error reason => rw [hread] at htyped; cases htyped
  | ok value =>
      rw [hread] at htyped
      exact ⟨value, rfl, (Except.ok.inj htyped).symm⟩

/-- A getter that takes a default returns the value of a checked argument. -/
theorem getD_of_typed
    (hgives : tp.Gives a text)
    (htyped : ∃ r, tp.typed a read = .ok r)
    (otherwise : α) :
    ∃ v, (read text).toOption.map wrap = some v ∧
      some (wrap ((tp.lenient? a read).getD otherwise)) = some v := by
  obtain ⟨value, hread, hlenient⟩ := exists_value hgives htyped
  exact ⟨wrap value, by rw [hread]; rfl, by rw [hlenient]; rfl⟩

/-- A getter without a default returns the value of a checked argument. -/
theorem map_of_typed
    (hgives : tp.Gives a text)
    (htyped : ∃ r, tp.typed a read = .ok r) :
    ∃ v, (read text).toOption.map wrap = some v ∧ (tp.lenient? a read).map wrap = some v := by
  obtain ⟨value, hread, hlenient⟩ := exists_value hgives htyped
  exact ⟨wrap value, by rw [hread]; rfl, by rw [hlenient]; rfl⟩

/-- A text that cannot be read is left out by the lenient reading. -/
theorem lenient?_of_unreadable
    (hgives : tp.Gives a text)
    (hread : (read text).toOption.map wrap = none) :
    tp.lenient? a read = none := by
  cases hvalue : read text with
  | ok value => rw [hvalue] at hread; cases hread
  | error reason => rw [lenient?, typed_of_gives hgives, hvalue]

theorem getD_of_unreadable
    (hgives : tp.Gives a text)
    (hread : (read text).toOption.map wrap = none)
    (otherwise : α) :
    some (wrap ((tp.lenient? a read).getD otherwise)) = some (wrap otherwise) := by
  rw [lenient?_of_unreadable hgives hread]
  rfl

theorem map_of_unreadable
    (hgives : tp.Gives a text)
    (hread : (read text).toOption.map wrap = none) :
    (tp.lenient? a read).map wrap = none := by
  rw [lenient?_of_unreadable hgives hread]
  rfl

end Typed

/-! ### Validation -/

/-- What is checked of a tracepoint. -/
structure Checked (tp : Tracepoint) : Prop where
  fireCount : ∃ count, tp.typed .fireCount readSigned = .ok count ∧ checkFireCount count = .ok ()
  firePeriod : ∃ r, tp.typed .firePeriod readSigned = .ok r
  windowStart : ∃ r, tp.typed .windowStart readSigned = .ok r
  windowEnd : ∃ r, tp.typed .windowEnd readSigned = .ok r
  frameType : ∃ r, tp.typed .frameType (readName FrameType.parse?) = .ok r
  stackType : ∃ r, tp.typed .stackType (readName StackType.parse?) = .ok r
  stage : ∃ r, tp.typed .stage (readName Stage.parse?) = .ok r
  span : ∃ r, tp.typed .span (readName SpanType.parse?) = .ok r
  maxVarDepth : ∃ r, tp.typed .maxVarDepth readSize = .ok r
  maxVariables : ∃ r, tp.typed .maxVariables readSize = .ok r
  maxCollectionSize : ∃ r, tp.typed .maxCollectionSize readSize = .ok r
  maxStringLength : ∃ r, tp.typed .maxStringLength readSize = .ok r
  maxProcessTime : ∃ r, tp.typed .maxProcessTime readSize = .ok r
  snapshot : tp.checkSnapshot = .ok ()
  method : tp.stage.isMethod = true → tp.methodName?.isSome = true

/-- The steps of a validation succeed one by one. -/
theorem exists_of_bind
    {α β : Type} {x : Except ConfigError α} {k : α → Except ConfigError β} {b : β}
    (h : x >>= k = .ok b) :
    ∃ a, x = .ok a ∧ k a = .ok b := by
  cases x with
  | error e => cases h
  | ok a => exact ⟨a, rfl, h⟩

theorem exists_of_discard
    {α β : Type} {x : Except ConfigError α} {k : PUnit → Except ConfigError β} {b : β}
    (h : discard x >>= k = .ok b) :
    (∃ a, x = .ok a) ∧ k ⟨⟩ = .ok b := by
  cases x with
  | error e => cases h
  | ok a => exact ⟨⟨a, rfl⟩, h⟩

theorem checked_of_validate
    {tp : Tracepoint}
    (h : tp.validate = .ok ()) :
    tp.Checked := by
  rw [validate] at h
  obtain ⟨count, hcount, h⟩ := exists_of_bind h
  obtain ⟨_, hleast, h⟩ := exists_of_bind h
  obtain ⟨hperiod, h⟩ := exists_of_discard h
  obtain ⟨hstart, h⟩ := exists_of_discard h
  obtain ⟨hend, h⟩ := exists_of_discard h
  obtain ⟨hframe, h⟩ := exists_of_discard h
  obtain ⟨hstack, h⟩ := exists_of_discard h
  obtain ⟨hstage, h⟩ := exists_of_discard h
  obtain ⟨span, hspan, h⟩ := exists_of_bind h
  obtain ⟨hdepth, h⟩ := exists_of_discard h
  obtain ⟨hvariables, h⟩ := exists_of_discard h
  obtain ⟨hcollection, h⟩ := exists_of_discard h
  obtain ⟨hlength, h⟩ := exists_of_discard h
  obtain ⟨htime, h⟩ := exists_of_discard h
  obtain ⟨_, hsnapshot, h⟩ := exists_of_bind h
  have hmethod : tp.stage.isMethod = true → tp.methodName?.isSome = true := by
    intro hstage
    have hneeds : tp.needsMethod span = true := by rw [needsMethod, hstage, Bool.true_or]
    rw [hneeds, Bool.true_and] at h
    split at h
    · cases h
    · next hname => simpa [Option.isSome_iff_ne_none] using hname
  exact ⟨⟨count, hcount, hleast⟩, hperiod, hstart, hend, hframe, hstack, hstage, ⟨span, hspan⟩,
    hdepth, hvariables, hcollection, hlength, htime, hsnapshot, hmethod⟩

namespace Checked

variable {tp : Tracepoint}

/-- The count of a checked tracepoint is at least the one that sets no limit. -/
theorem fireCount_ge
    (h : tp.Checked) :
    -1 ≤ tp.fireCount := by
  obtain ⟨count, hcount, hleast⟩ := h.fireCount
  rw [Tracepoint.fireCount, lenient?, hcount]
  cases count with
  | none => decide
  | some n =>
      rw [checkFireCount] at hleast
      split at hleast
      · cases hleast
      · next hn => exact Int.not_lt.mp hn

/-- A decision about snapshots is one of two words. -/
theorem collects
    (h : tp.Checked)
    {text : String}
    (hgives : tp.Gives .snapshot text) :
    text = "collect" ∨ text = "no_collect" := by
  have hsnapshot := h.snapshot
  rw [checkSnapshot, arg?_of_gives hgives] at hsnapshot
  dsimp only at hsnapshot
  split at hsnapshot
  · next htext => simpa using htext
  · cases hsnapshot

/-- The getter of an argument that is given returns its value. -/
theorem setting?_eq
    (h : tp.Checked)
    {a : Argument} {text : String}
    (htyped : a.IsTyped)
    (hgives : tp.Gives a text) :
    ∃ v, a.read? text = some v ∧ tp.setting? a = some v := by
  cases a with
  | fireCount => exact getD_of_typed hgives (h.fireCount.imp fun _ => And.left) _
  | firePeriod => exact getD_of_typed hgives h.firePeriod _
  | windowStart => exact getD_of_typed hgives h.windowStart _
  | windowEnd => exact getD_of_typed hgives h.windowEnd _
  | frameType => exact getD_of_typed hgives h.frameType _
  | stackType => exact getD_of_typed hgives h.stackType _
  | stage =>
      obtain ⟨s, hread, hlenient⟩ := exists_value hgives h.stage
      refine ⟨.stage s, ?_, ?_⟩
      · rw [Argument.read?, hread]
        rfl
      · rw [setting?, Tracepoint.stage, hlenient]
  | span => exact map_of_typed hgives h.span
  | snapshot =>
      rw [setting?, collectsSnapshot, arg?_of_gives hgives]
      rcases h.collects hgives with rfl | rfl
      · exact ⟨.collects true, rfl, rfl⟩
      · exact ⟨.collects false, rfl, rfl⟩
  | maxVarDepth => exact map_of_typed hgives h.maxVarDepth
  | maxVariables => exact map_of_typed hgives h.maxVariables
  | maxCollectionSize => exact map_of_typed hgives h.maxCollectionSize
  | maxStringLength => exact map_of_typed hgives h.maxStringLength
  | maxProcessTime => exact map_of_typed hgives h.maxProcessTime
  | condition => cases htyped
  | logMsg => cases htyped
  | methodName => cases htyped

end Checked

/-! ### Defaults -/

/-- In place of a text that it cannot read, a getter returns the default. -/
theorem setting?_of_unreadable
    {tp : Tracepoint} {a : Argument} {text : String}
    (htyped : a.IsTyped)
    (hgives : tp.Gives a text)
    (hread : a.read? text = none) :
    tp.setting? a = tp.default? a := by
  cases a with
  | fireCount => exact getD_of_unreadable hgives hread _
  | firePeriod => exact getD_of_unreadable hgives hread _
  | windowStart => exact getD_of_unreadable hgives hread _
  | windowEnd => exact getD_of_unreadable hgives hread _
  | frameType => exact getD_of_unreadable hgives hread _
  | stackType => exact getD_of_unreadable hgives hread _
  | stage =>
      have hnone : tp.lenient? .stage (readName Stage.parse?) = none :=
        lenient?_of_unreadable hgives hread
      rw [setting?, stage, hnone]
      rfl
  | span => exact map_of_unreadable hgives hread
  | snapshot =>
      have hother : some text ≠ some "no_collect" := by
        rintro hsame
        obtain rfl := Option.some.inj hsame
        exact absurd hread (by decide)
      rw [setting?, collectsSnapshot, arg?_of_gives hgives, bne_iff_ne.mpr hother]
      rfl
  | maxVarDepth => exact map_of_unreadable hgives hread
  | maxVariables => exact map_of_unreadable hgives hread
  | maxCollectionSize => exact map_of_unreadable hgives hread
  | maxStringLength => exact map_of_unreadable hgives hread
  | maxProcessTime => exact map_of_unreadable hgives hread
  | condition => cases htyped
  | logMsg => cases htyped
  | methodName => cases htyped

/-- A text that cannot be read makes the tracepoint invalid. -/
theorem validate_of_unreadable
    {tp : Tracepoint} {a : Argument} {text : String}
    (htyped : a.IsTyped)
    (hgives : tp.Gives a text)
    (hread : a.read? text = none) :
    ∃ e, tp.validate = .error e := by
  cases hvalidate : tp.validate with
  | error e => exact ⟨e, rfl⟩
  | ok _ =>
      obtain ⟨v, hvalue, -⟩ := (checked_of_validate hvalidate).setting?_eq htyped hgives
      rw [hread] at hvalue
      cases hvalue

end Tracepoint
end LiveProbe
