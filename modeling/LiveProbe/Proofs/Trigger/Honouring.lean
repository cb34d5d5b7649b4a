import LiveProbe.Proofs.Capture.Merging
import LiveProbe.Proofs.Config.Validation
import LiveProbe.Proofs.Context.Deliveries
import LiveProbe.Proofs.Trigger.CarryOver
import LiveProbe.Proofs.Trigger.Matching

/-!
# Explicit settings are honoured

What the actions of an index run with, compared with the arguments of their tracepoints.

**Specification.**  `Argument.Allows`: what a given number says of the times at which an action
may fire, told in milliseconds and by integers alone. `Action.FiresWithin`: an action keeps to
it. `Action.CapturesWith`: in every context the bounds are the larger of a given amount and of
what the other actions ask for. `Action.RunsWith`: what a value of a typed argument means for an
action, for its location, and for what it does.

**Results.**
* `Tracepoint.location_isOf`: a valid tracepoint has a location at which its stage is
  found; `TriggerIndex.location_of_mem`: its actions wait there.
* `Tracepoint.allows_of_refusal?`, `Tracepoint.refusal?_of_allows`: the limits of an action
  against the numbers that the getters return.
* `Action.capturesWith_of_asked`: a capture grants what an action asks for.
* `Action.runsWith_of_setting?`: an action runs with what the getters return.
* `Tracepoint.explicit_settings_honoured`: validation and the getters never disagree, so
  that actions run with the arguments that are given.
* `Tracepoint.explicit_settings_overridden`: where something else is stronger than an argument
  that is given.
-/

namespace LiveProbe

/-- The point within a line or method. -/
def Stage.position : Stage → Position
  | lineStart | methodStart => .start
  | lineEnd | methodEnd => .finish
  | lineCapture | methodCapture => .capture

/-- The place that a tracepoint names together with a stage. -/
structure Location.IsOf (l : Location) (tp : Tracepoint) (s : Stage) : Prop where
  path : l.path = tp.path
  position : l.position = s.position
  line : s.isMethod = false → l.target = .line tp.lineNo
  method : s.isMethod = true → ∃ name, tp.methodName? = some name ∧ l.target = .method name

/-- What a number that is given for an argument says of a firing at a time, after firings with
these statistics. Times are given in milliseconds and kept in nanoseconds; zero sets no limit,
and neither does a count of minus one. -/
def Argument.Allows
    (a : Argument)
    (n : Int)
    (s : FireStats)
    (ts : Nat) :
    Prop :=
  match a with
  | .fireCount => n = -1 ∨ s.count < n
  | .firePeriod =>
      n = 0 ∨ ∀ last, s.lastFireNs = some last → n * 1000000 < ((ts - last : Nat) : Int)
  | .windowStart => n = 0 ∨ n * 1000000 ≤ ts
  | .windowEnd => n = 0 ∨ ts ≤ n * 1000000
  | _ => True

namespace Action

/-- An action fires only where a number allows it. The last instant of the clock stands for all
later times, and is left out. -/
def FiresWithin
    (x : Action)
    (a : Argument)
    (n : Int) :
    Prop :=
  ∀ s ts, ts < maxTime → x.limits.refusal? s ts = none → a.Allows n s ts

/-- Whenever its turn comes in a context, an action captures with a given amount of a setting,
or with a larger one that another action of the context asks for. -/
def CapturesWith
    (x : Action)
    (setting : CaptureConfig.Field)
    (n : Nat) :
    Prop :=
  ∀ c event frame before after s f,
    Firing.begin? c event frame (before ++ x :: after) s = some f →
      IsGreatest
        (insert n {m | ∃ other ∈ before ++ after,
          m = CaptureConfig.asked c.captureDefaults other.tracepoint setting})
        ((f.process c before).2.context.config.amount setting)

/-- What a value of an argument means for an action at a location. -/
def RunsWith
    (x : Action)
    (l : Location) :
    Argument → ArgumentValue → Prop
  | .fireCount, .whole n => x.FiresWithin .fireCount n
  | .firePeriod, .whole n => x.FiresWithin .firePeriod n
  | .windowStart, .whole n => x.FiresWithin .windowStart n
  | .windowEnd, .whole n => x.FiresWithin .windowEnd n
  | .frameType, .frames frameType => x.CapturesWith .frames frameType.rank
  | .stackType, .stack stackType => x.CapturesWith .callers stackType.rank
  | .stage, .stage s => l.IsOf x.tracepoint s
  | .span, .span spanType => ∀ other name, x.config = .span other name → other = spanType
  | .snapshot, .collects decision => x.config = .snapshot → decision = true
  | .maxVarDepth, .size n => x.CapturesWith .varDepth n
  | .maxVariables, .size n => x.CapturesWith .variables n
  | .maxCollectionSize, .size n => x.CapturesWith .collectionSize n
  | .maxStringLength, .size n => x.CapturesWith .stringLength n
  | .maxProcessTime, .size n => x.CapturesWith .processTime n
  | _, _ => False

end Action

/-! ### Locations and effects -/

namespace Tracepoint

/-- The empty name that stands in for a method is never used. -/
theorem location_isOf
    {tp : Tracepoint}
    (hmethod : tp.stage.isMethod = true → tp.methodName?.isSome = true) :
    tp.location.IsOf tp tp.stage := by
  have hname : tp.stage.isMethod = true →
      ∃ name, tp.methodName? = some name ∧ tp.methodName?.getD "" = name := by
    intro hstage
    obtain ⟨name, hname⟩ := Option.isSome_iff_exists.mp (hmethod hstage)
    exact ⟨name, hname, by rw [hname]; rfl⟩
  rw [location]
  cases hs : tp.stage with
  | lineStart | lineEnd | lineCapture => exact ⟨rfl, rfl, fun _ => rfl, nofun⟩
  | methodStart | methodEnd | methodCapture =>
      rw [hs] at hname
      obtain ⟨name, hgiven, htarget⟩ := hname rfl
      exact ⟨rfl, rfl, nofun, fun _ => ⟨name, hgiven, congrArg Target.method htarget⟩⟩

/-- A span action opens the span that its tracepoint asks for. -/
theorem span?_of_effect?
    {tp : Tracepoint} {n : EffectName} {spanType : SpanType} {name : Option String}
    (h : tp.effect? n = some (.span spanType name)) :
    tp.span? = some spanType := by
  cases n with
  | log | metric =>
      obtain ⟨_, -, hconfig⟩ := Option.map_eq_some_iff.mp h
      cases hconfig
  | snapshot =>
      rw [effect?] at h
      split at h <;> cases h
  | span =>
      obtain ⟨_, hspan, hconfig⟩ := Option.map_eq_some_iff.mp h
      rw [hspan, (ActionConfig.span.inj hconfig).1]

/-- A snapshot action belongs to a tracepoint that collects snapshots. -/
theorem collectsSnapshot_of_effect?
    {tp : Tracepoint} {n : EffectName}
    (h : tp.effect? n = some .snapshot) :
    tp.collectsSnapshot = true := by
  cases n with
  | log | metric | span =>
      obtain ⟨_, -, hconfig⟩ := Option.map_eq_some_iff.mp h
      cases hconfig
  | snapshot =>
      rw [effect?] at h
      split at h
      · assumption
      · cases h

end Tracepoint

/-! ### Limits on firing -/

/-- Nothing refuses an attempt exactly if count, window and period all allow it. -/
theorem FireLimits.refusal?_eq_none_iff
    {l : FireLimits} {s : FireStats} {ts : Nat} :
    l.refusal? s ts = none ↔
      (l.fireCount = Limits.unlimitedFireCount ∨ s.count < l.fireCount) ∧
      (l.windowStartNs = 0 ∨ l.windowStartNs ≤ ts) ∧
      (l.windowEndNs = 0 ∨ ts ≤ l.windowEndNs) ∧
      l.isTooSoon s.lastFireNs ts = false := by
  unfold refusal?
  split
  · next h => exact iff_of_false nofun fun hall => by omega
  · split
    · next h => exact iff_of_false nofun fun hall => by omega
    · split
      · next h => exact iff_of_false nofun fun hall => by omega
      · split
        · next h => exact iff_of_false nofun fun hall => by simp [h] at hall
        · next h => exact iff_of_true rfl ⟨by omega, by omega, by omega, by simpa using h⟩

/-- The period allows a first hit, and any hit far enough behind the last. -/
theorem FireLimits.isTooSoon_eq_false_iff
    {l : FireLimits} {last? : Option Nat} {ts : Nat} :
    l.isTooSoon last? ts = false ↔
      l.firePeriodNs = 0 ∨ ∀ last, last? = some last → l.firePeriodNs < ts - last := by
  cases last? with
  | none => simp [isTooSoon]
  | some last =>
      simp only [isTooSoon, Bool.and_eq_false_iff, decide_eq_false_iff_not, Option.some.injEq,
        forall_eq']
      omega

namespace Tracepoint

variable {tp : Tracepoint} {a : Argument} {n : Int} {s : FireStats} {ts : Nat}

/-- Where its limits let an action fire, the numbers that its tracepoint gives allow it. A
negative end of the window is not a time. -/
theorem allows_of_refusal?
    (hts : ts < maxTime)
    (hend : a = .windowEnd → 0 ≤ n)
    (hsetting : tp.setting? a = some (.whole n))
    (h : (FireLimits.ofTracepoint tp).refusal? s ts = none) :
    a.Allows n s ts := by
  obtain ⟨hcount, hwindowStart, hwindowEnd, hperiod⟩ := FireLimits.refusal?_eq_none_iff.mp h
  rw [FireLimits.isTooSoon_eq_false_iff] at hperiod
  simp only [FireLimits.ofTracepoint, millisToNanos, maxTime, Limits.nanosPerMilli,
    Limits.unlimitedFireCount] at hts hcount hwindowStart hwindowEnd hperiod
  cases a with
  | fireCount =>
      obtain rfl := ArgumentValue.whole.inj (Option.some.inj hsetting)
      exact hcount
  | firePeriod =>
      obtain rfl := ArgumentValue.whole.inj (Option.some.inj hsetting)
      rcases hperiod with hzero | hlast
      · rcases Int.lt_trichotomy tp.firePeriodMs 0 with hneg | hnone | hpos
        · exact .inr fun last _ => by omega
        · exact .inl hnone
        · omega
      · refine .inr fun last hsome => ?_
        have helapsed := hlast last hsome
        omega
  | windowStart =>
      obtain rfl := ArgumentValue.whole.inj (Option.some.inj hsetting)
      rw [Argument.Allows]
      omega
  | windowEnd =>
      obtain rfl := ArgumentValue.whole.inj (Option.some.inj hsetting)
      have hnonneg := hend rfl
      rw [Argument.Allows]
      omega
  | _ => trivial

/-- Nothing but these numbers keeps an action from firing. -/
theorem refusal?_of_allows
    (hts : ts ≤ maxTime)
    (h : ∀ a n, tp.setting? a = some (.whole n) → a.Allows n s ts) :
    (FireLimits.ofTracepoint tp).refusal? s ts = none := by
  have hcount := h .fireCount _ rfl
  have hperiod := h .firePeriod _ rfl
  have hstart := h .windowStart _ rfl
  have hend := h .windowEnd _ rfl
  simp only [Argument.Allows, maxTime] at hts hcount hstart hend
  rw [FireLimits.refusal?_eq_none_iff, FireLimits.isTooSoon_eq_false_iff]
  simp only [FireLimits.ofTracepoint, millisToNanos, maxTime, Limits.nanosPerMilli,
    Limits.unlimitedFireCount]
  refine ⟨hcount, by omega, by omega, ?_⟩
  by_cases hpos : 0 < tp.firePeriodMs
  · refine .inr fun last hsome => ?_
    have helapsed := (hperiod.resolve_left (by omega)) last hsome
    omega
  · exact .inl (by omega)

end Tracepoint

/-! ### Bounds of a capture -/

namespace Firing

variable {c : Collaborators} {event : TraceEvent} {frame : HostFrame} {actions : List Action}
  {s : AgentState} {f : Firing}

/-- A context begins with the bounds of all its actions, and keeps them. -/
theorem config_process
    (hbegin : begin? c event frame actions s = some f)
    (before : List Action) :
    (f.process c before).2.context.config =
      .merged c.captureDefaults (actions.map Action.tracepoint) := by
  rw [(leaves_process c before f).1.config]
  simp only [begin?, Option.map_eq_some_iff] at hbegin
  obtain ⟨_, _, rfl⟩ := hbegin
  rfl

end Firing

namespace Action

variable {x : Action} {l : Location} {a : Argument} {v : ArgumentValue}

/-- A capture grants what an action asks for, and more only where another one asks for more. -/
theorem capturesWith_of_asked
    {setting : CaptureConfig.Field} {n : Nat}
    (h : ∀ defaults, CaptureConfig.asked defaults x.tracepoint setting = n) :
    x.CapturesWith setting n := by
  intro c event frame before after s f hbegin
  rw [Firing.config_process hbegin]
  have hne : (before ++ x :: after).map Action.tracepoint ≠ [] := by simp
  constructor
  · obtain ⟨tp, htp, hasked⟩ := CaptureConfig.exists_asked_merged c.captureDefaults hne setting
    obtain ⟨other, hother, rfl⟩ := List.mem_map.mp htp
    rw [hasked]
    rcases List.mem_append.mp hother with hbefore | hrest
    · exact .inr ⟨other, List.mem_append_left after hbefore, rfl⟩
    · rcases List.mem_cons.mp hrest with rfl | hafter
      · exact .inl (h c.captureDefaults)
      · exact .inr ⟨other, List.mem_append_right before hafter, rfl⟩
  · have hgranted : ∀ other ∈ before ++ x :: after,
        CaptureConfig.asked c.captureDefaults other.tracepoint setting ≤
          (CaptureConfig.merged c.captureDefaults
            ((before ++ x :: after).map Action.tracepoint)).amount setting := by
      intro other hother
      rw [← CaptureConfig.amount_requested]
      exact CaptureConfig.isWithin_iff.mp
        (CaptureConfig.requested_isWithin_merged (List.mem_map_of_mem hother)) setting
    rintro m (rfl | ⟨other, hother, rfl⟩)
    · rw [← h c.captureDefaults]
      exact hgranted x (List.mem_append_right before List.mem_cons_self)
    · rcases List.mem_append.mp hother with hbefore | hafter
      · exact hgranted other (List.mem_append_left _ hbefore)
      · exact hgranted other (List.mem_append_right before (List.mem_cons_of_mem x hafter))

/-- An action runs with what the getters of its tracepoint return. -/
theorem runsWith_of_setting?
    (hlimits : x.limits = .ofTracepoint x.tracepoint)
    (hlocation : l.IsOf x.tracepoint x.tracepoint.stage)
    (hperforms : ∃ n, x.Performs n)
    (hend : a = .windowEnd → ∀ n, v = .whole n → 0 ≤ n)
    (h : x.tracepoint.setting? a = some v) :
    x.RunsWith l a v := by
  obtain ⟨effect, heffect⟩ := hperforms
  have hconfig := heffect.config_eq
  have hfires : ∀ n, v = .whole n → x.FiresWithin a n := by
    rintro n rfl s ts hts hallowed
    rw [hlimits] at hallowed
    exact Tracepoint.allows_of_refusal? hts (fun ha => hend ha n rfl) h hallowed
  have hsize : ∀ {size? : Option Nat} {n : Nat} (otherwise : Nat),
      size? = some n → size?.getD otherwise = n := by
    rintro _ n otherwise rfl
    rfl
  cases a with
  | fireCount | firePeriod | windowStart | windowEnd =>
      obtain rfl := Option.some.inj h
      exact hfires _ rfl
  | frameType | stackType =>
      obtain rfl := Option.some.inj h
      exact capturesWith_of_asked fun _ => rfl
  | stage =>
      obtain rfl := Option.some.inj h
      exact hlocation
  | span =>
      obtain ⟨spanType, hspan, rfl⟩ := Option.map_eq_some_iff.mp h
      intro other name hother
      rw [hother] at hconfig
      exact Option.some.inj ((Tracepoint.span?_of_effect? hconfig).symm.trans hspan)
  | snapshot =>
      obtain rfl := Option.some.inj h
      intro hsnapshot
      rw [hsnapshot] at hconfig
      exact Tracepoint.collectsSnapshot_of_effect? hconfig
  | maxVarDepth | maxVariables | maxCollectionSize | maxStringLength | maxProcessTime =>
      obtain ⟨n, hn, rfl⟩ := Option.map_eq_some_iff.mp h
      exact capturesWith_of_asked fun _ => hsize _ hn
  | condition | logMsg | methodName => cases h

end Action

/-! ### Actions of an index -/

namespace TriggerIndex

variable {key : Nat} {tps : List Tracepoint} {t : Trigger} {x : Action}

/-- An action stands in a trigger of its tracepoint's location. -/
theorem location_of_mem
    (ht : t ∈ (build key tps).triggers)
    (hx : x ∈ t.actions) :
    t.location = x.tracepoint.location := by
  obtain ⟨b, hb, htb⟩ := List.mem_flatMap.mp ht
  exact (((placed_build key tps).buckets b hb).own t htb x hx).symm

theorem validate_of_accepts
    {tp : Tracepoint}
    (h : accepts tp = true) :
    tp.validate = .ok () := by
  rw [accepts_eq, Bool.and_eq_true, Tracepoint.isValid] at h
  cases hvalidate : tp.validate with
  | error e =>
      rw [hvalidate] at h
      cases h.1
  | ok _ => rfl

end TriggerIndex

/-- The getters of a valid tracepoint return the values of all typed arguments that are
given; where a getter falls back on its default, the tracepoint is not valid. An action of an
index thus runs with the arguments of its tracepoint: its limits let it fire when the numbers
allow it and, unless its window ends before all times, only then; and it captures no less than
it is told to. -/
theorem Tracepoint.explicit_settings_honoured
    (tp : Tracepoint) :
    (tp.validate = .ok () →
      (∀ a text, a.IsTyped → tp.Gives a text →
        ∃ v, a.read? text = some v ∧ tp.setting? a = some v) ∧
      -1 ≤ tp.fireCount ∧
      (tp.stage.isMethod = true → tp.methodName?.isSome = true)) ∧
    (∀ a text, a.IsTyped → tp.Gives a text → a.read? text = none →
      tp.setting? a = tp.default? a ∧ ∃ e, tp.validate = .error e) ∧
    ∀ (key : Nat) (tps : List Tracepoint),
      ∀ t ∈ (TriggerIndex.build key tps).triggers, ∀ x ∈ t.actions, x.tracepoint = tp →
        tp ∈ tps ∧ tp.validate = .ok () ∧
        (∀ a text, a.IsTyped → tp.Gives a text →
          ∃ v, a.read? text = some v ∧
            ((a = .windowEnd → ∀ n, v = .whole n → 0 ≤ n) → x.RunsWith t.location a v)) ∧
        ∀ s ts, ts ≤ maxTime → (∀ a n, tp.setting? a = some (.whole n) → a.Allows n s ts) →
          x.limits.refusal? s ts = none := by
  refine ⟨fun hvalid => ?_, fun a text htyped hgives hread => ?_, ?_⟩
  · have hchecked := checked_of_validate hvalid
    exact ⟨fun a text htyped hgives => hchecked.setting?_eq htyped hgives, hchecked.fireCount_ge,
      hchecked.method⟩
  · exact ⟨setting?_of_unreadable htyped hgives hread, validate_of_unreadable htyped hgives hread⟩
  · rintro key tps t ht x hx rfl
    have hmem : x ∈ (TriggerIndex.build key tps).actions := List.mem_flatMap.mpr ⟨t, ht, hx⟩
    obtain ⟨htp, haccepts, hperforms⟩ := TriggerIndex.exists_of_mem_build hmem
    have hvalid := TriggerIndex.validate_of_accepts haccepts
    have hchecked := checked_of_validate hvalid
    have hlimits : x.limits = .ofTracepoint x.tracepoint := by
      obtain ⟨n, first, i, hi, -⟩ := hperforms
      exact (of_mem_actions (List.mem_of_getElem? hi)).2.1
    have hlocation : t.location.IsOf x.tracepoint x.tracepoint.stage := by
      rw [TriggerIndex.location_of_mem ht hx]
      exact location_isOf hchecked.method
    refine ⟨htp, hvalid, fun a text htyped hgives => ?_, fun s ts hts hallows => ?_⟩
    · obtain ⟨v, hread, hsetting⟩ := hchecked.setting?_eq htyped hgives
      exact ⟨v, hread, fun hend => x.runsWith_of_setting? hlimits hlocation hperforms hend hsetting⟩
    · rw [hlimits]
      exact refusal?_of_allows hts hallows

/-- A tracepoint with these arguments. -/
def Tracepoint.withArguments
    (args : List (String × String)) :
    Tracepoint where
  id := "tp"
  path := "a.py"
  lineNo := 3
  args := .ofList args
  watches := []
  metrics := []

/-- A tracepoint with blanks around its arguments. -/
def padded : Tracepoint :=
  .withArguments [("fire_count", " 3 "), ("window_end", "\t5"), ("stage", "line_end\t"),
    ("MAX_VAR_DEPTH", " 7")]

/-- The last instant of its window is within the numbers that it gives. -/
theorem allows_padded
    {a : Argument} {n : Int}
    (hsetting : padded.setting? a = some (.whole n)) :
    a.Allows n .zero 5000000 := by
  cases a with
  | fireCount =>
      obtain rfl : 3 = n := ArgumentValue.whole.inj (Option.some.inj hsetting)
      exact .inr (by decide)
  | firePeriod => exact .inr nofun
  | windowStart =>
      obtain rfl : 0 = n := ArgumentValue.whole.inj (Option.some.inj hsetting)
      exact .inl rfl
  | windowEnd =>
      obtain rfl : 5 = n := ArgumentValue.whole.inj (Option.some.inj hsetting)
      exact .inr (by decide)
  | _ => trivial

/-- Values with signs and blanks around them, beside one that is refused. -/
theorem Tracepoint.explicit_settings_honoured_padded :
    padded.setting? .maxVarDepth = some (.size 7) ∧
      (∃ e, { padded with args := padded.args.insert "MAX_VARIABLES" "-7" }.validate = .error e) ∧
      ∀ t ∈ (TriggerIndex.build 0 [padded]).triggers, ∀ x ∈ t.actions,
        (∀ ts < maxTime, x.limits.refusal? ⟨3, none⟩ ts ≠ none) ∧
        x.limits.refusal? .zero 5000000 = none ∧ x.limits.refusal? .zero 5000001 ≠ none ∧
        t.location.position = .finish ∧
        ∀ c event frame s f, Firing.begin? c event frame [x] s = some f →
          f.context.config.maxVarDepth = 7 := by
  have hdepth : padded.Gives .maxVarDepth "7" :=
    ⟨" 7", by decide, ⟨'7', by decide, by decide⟩, by decide⟩
  have hcount : padded.Gives .fireCount "3" :=
    ⟨" 3 ", by decide, ⟨'3', by decide, by decide⟩, by decide⟩
  have hwindow : padded.Gives .windowEnd "5" :=
    ⟨"\t5", by decide, ⟨'5', by decide, by decide⟩, by decide⟩
  have hstage : padded.Gives .stage "line_end" :=
    ⟨"line_end\t", by decide, ⟨'l', by decide, by decide⟩, by decide⟩
  obtain ⟨hvalid, -, hindex⟩ := explicit_settings_honoured padded
  refine ⟨?_, ?_, fun t ht x hx => ?_⟩
  · obtain ⟨v, hread, hsetting⟩ := (hvalid (by rfl)).1 .maxVarDepth "7" trivial hdepth
    rw [hsetting, ← hread]
    rfl
  · let faulty : Tracepoint := { padded with args := padded.args.insert "MAX_VARIABLES" "-7" }
    have hgives : faulty.Gives .maxVariables "-7" :=
      ⟨"-7", by decide, ⟨'7', by decide, by decide⟩, by decide⟩
    exact ((explicit_settings_honoured faulty).2.1 .maxVariables "-7" trivial hgives (by rfl)).2
  · have htp : x.tracepoint = padded := by
      have hmem := (TriggerIndex.exists_of_mem_build (List.mem_flatMap.mpr ⟨t, ht, hx⟩)).1
      exact List.mem_singleton.mp hmem
    obtain ⟨-, -, hruns, hfires⟩ := hindex 0 [padded] t ht x hx htp
    obtain ⟨count, hreadCount, hlimit⟩ := hruns .fireCount "3" trivial hcount
    obtain ⟨last, hreadEnd, hend⟩ := hruns .windowEnd "5" trivial hwindow
    obtain ⟨stage, hreadStage, hlocation⟩ := hruns .stage "line_end" trivial hstage
    obtain ⟨depth, hreadDepth, hcapture⟩ := hruns .maxVarDepth "7" trivial hdepth
    obtain rfl : .whole 3 = count := Option.some.inj hreadCount
    obtain rfl : .whole 5 = last := Option.some.inj hreadEnd
    obtain rfl : .stage .lineEnd = stage := Option.some.inj hreadStage
    obtain rfl : .size 7 = depth := Option.some.inj hreadDepth
    refine ⟨fun ts hts hallowed => ?_, ?_, fun hallowed => ?_, (hlocation nofun).position,
      fun c event frame s f hbegin => ?_⟩
    · have hcounted : (3 : Int) = -1 ∨ (3 : Int) < 3 := hlimit nofun _ ts hts hallowed
      omega
    · exact hfires .zero 5000000 (by decide) fun a n hsetting => allows_padded hsetting
    · have hwithin : (5 : Int) = 0 ∨ (5000001 : Int) ≤ 5 * 1000000 :=
        hend (fun _ n hn => by cases hn; decide) .zero 5000001 (by decide) hallowed
      omega
    · have hgreatest := hcapture nofun c event frame [] [] s f hbegin
      exact hgreatest.1.resolve_right fun ⟨other, hother, _⟩ => nomatch hother

/-- Its window ends before all times. -/
def lapsed : Tracepoint := .withArguments [("window_start", "1"), ("window_end", "-5")]

/-- Its window begins after all times. -/
def distant : Tracepoint := .withArguments [("window_start", "18446744073710")]

/-- It asks for less than others get where they ask for nothing. -/
def shallow : Tracepoint := .withArguments [("MAX_VAR_DEPTH", "2")]

/-- Three valid tracepoints whose actions do not keep to what is given: a window that ends
before all times stays open, one that begins after all times opens in the last instant, and
a capture goes as deep as another tracepoint of its context asks for. -/
theorem Tracepoint.explicit_settings_overridden :
    (lapsed.validate = .ok () ∧ lapsed.Gives .windowEnd "-5" ∧
      Argument.windowEnd.read? "-5" = some (.whole (-5)) ∧
      ∃ t ∈ (TriggerIndex.build 0 [lapsed]).triggers, ∃ x ∈ t.actions,
        x.tracepoint = lapsed ∧ x.limits.refusal? .zero 2000000 = none ∧
        ¬Argument.windowEnd.Allows (-5) .zero 2000000) ∧
    (distant.validate = .ok () ∧ distant.Gives .windowStart "18446744073710" ∧
      Argument.windowStart.read? "18446744073710" = some (.whole 18446744073710) ∧
      ∃ t ∈ (TriggerIndex.build 0 [distant]).triggers, ∃ x ∈ t.actions,
        x.tracepoint = distant ∧ x.limits.refusal? .zero maxTime = none ∧
        ¬Argument.windowStart.Allows 18446744073710 .zero maxTime) ∧
    (shallow.validate = .ok () ∧ shallow.Gives .maxVarDepth "2" ∧
      Argument.maxVarDepth.read? "2" = some (.size 2) ∧
      ∃ t ∈ (TriggerIndex.build 0 [shallow, .withArguments []]).triggers, ∃ x ∈ t.actions,
        x.tracepoint = shallow ∧
        ∃ f, Firing.begin? Firing.plainCollaborators .line Firing.bareFrame t.actions
            Firing.mixedState = some f ∧
          f.context.config.maxVarDepth = 5) := by
  refine ⟨⟨by rfl, ⟨"-5", by decide, ⟨'5', by decide, by decide⟩, by decide⟩, by rfl, ?_⟩,
    ⟨by rfl, ⟨"18446744073710", by decide, ⟨'1', by decide, by decide⟩, by decide⟩, by rfl, ?_⟩,
    by rfl, ⟨"2", by decide, ⟨'2', by decide, by decide⟩, by decide⟩, by rfl, ?_⟩
  · exact ⟨_, List.mem_singleton_self _, _, List.mem_singleton_self _, rfl, by rfl,
      by rw [Argument.Allows]; decide⟩
  · exact ⟨_, List.mem_singleton_self _, _, List.mem_singleton_self _, rfl, by rfl,
      by rw [Argument.Allows]; decide⟩
  · exact ⟨_, List.mem_singleton_self _, _, List.mem_cons_self, rfl, _, rfl, by rfl⟩

end LiveProbe
