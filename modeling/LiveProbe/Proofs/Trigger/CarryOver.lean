import LiveProbe.Proofs.Trigger.Rebuild

/-!
# What a rebuilt index takes over

The statistics of the actions of a rebuilt index, told from the tracepoints alone.

**Specification.**  `Action.Performs`: an action performs the effect that stands at its
place among the effects of its tracepoint, which are its message, its snapshot, its
metrics in their order and its span. Ids do not occur in it.

**Results.**
* `Action.Performs.config_eq`: an action does what its tracepoint has under the name of
  the effect, so that corresponding actions do the same.
* `TriggerIndex.exists_unique_performing`: where the ids of tracepoints differ, an index
  has one action for each effect of each accepted tracepoint.
* `TriggerIndex.rebuild_carries_over`: an action of an unchanged tracepoint has the
  statistics of the action that performed the same effect, all others have none, and
  those of the previous index stay.
-/

namespace LiveProbe

/-- The effect of a name, if a tracepoint has it. -/
def Tracepoint.effect? (tp : Tracepoint) : EffectName → Option ActionConfig
  | .log => tp.logMsg?.map .log
  | .snapshot => if tp.collectsSnapshot then some .snapshot else none
  | .metric position => tp.metrics[position]?.map .metric
  | .span => tp.span?.map fun spanType =>
      .span spanType (match spanType with
        | .method => tp.methodName?
        | .line => none)

/-- The effect of a tracepoint that an action of it stands for. -/
def Action.Performs (a : Action) (n : EffectName) : Prop :=
  ∃ first i : Nat,
    (a.tracepoint.actions first)[i]? = some a ∧ a.tracepoint.effectNames[i]? = some n

/-- Actions of equal tracepoints that perform the same effect. -/
def Action.Corresponds (a old : Action) : Prop :=
  old.tracepoint = a.tracepoint ∧ ∃ n, a.Performs n ∧ old.Performs n

namespace Tracepoint

/-- The effects of a tracepoint, found by their names. -/
theorem map_effect?_effectNames
    (tp : Tracepoint) :
    tp.effectNames.map tp.effect? = tp.effects.map fun e => some e.2 := by
  have hmetrics :
      ((List.range tp.metrics.length).map EffectName.metric).map tp.effect? =
        tp.metricEffects.map fun e => some e.2 := by
    rw [metricEffects, List.map_map, List.map_map]
    refine List.ext_getElem (by simp) fun i hi _ => ?_
    have hi : i < tp.metrics.length := by simpa using hi
    simp [effect?, hi]
  have hspan :
      (if tp.span?.isSome then [EffectName.span] else []).map tp.effect? =
        tp.spanEffect.map fun e => some e.2 := by
    rcases htype : tp.span? with _ | _ | _ <;> simp [spanEffect, effect?, htype]
  rw [effects, effectNames]
  simp only [List.map_append]
  rw [hmetrics, hspan]
  cases hlog : tp.logMsg? <;> cases hsnapshot : tp.collectsSnapshot <;>
    simp [effect?, hlog, hsnapshot]

end Tracepoint

namespace Action

variable {a b : Action} {m n : EffectName}

namespace Performs

/-- An action performs an effect that its tracepoint has. -/
theorem mem_effectNames
    (h : a.Performs n) :
    n ∈ a.tracepoint.effectNames := by
  obtain ⟨_, _, _, hname⟩ := h
  exact List.mem_of_getElem? hname

/-- The place of the effect among those of the tracepoint. -/
theorem exists_effect
    (h : a.Performs n) :
    ∃ (i : Nat) (e : String × ActionConfig), a.tracepoint.effects[i]? = some e ∧
      a.tracepoint.effectNames[i]? = some n ∧ a.id = a.tracepoint.id ++ e.1 ∧
      a.config = e.2 := by
  obtain ⟨first, i, ha, hname⟩ := h
  rw [Tracepoint.actions, List.getElem?_map, Option.map_eq_some_iff] at ha
  obtain ⟨⟨e, j⟩, he, haction⟩ := ha
  rw [List.getElem?_zipIdx, Option.map_eq_some_iff] at he
  obtain ⟨e, he, hpair⟩ := he
  obtain ⟨rfl, -⟩ := Prod.mk.inj hpair
  exact ⟨i, e, he, hname, congrArg Action.id haction.symm, congrArg Action.config haction.symm⟩

/-- The id of an action tells what it performs. -/
theorem id_eq
    (h : a.Performs n) :
    a.id = a.tracepoint.id ++ n.text := by
  obtain ⟨i, e, he, hname, hid, -⟩ := h.exists_effect
  have hends := congrArg (·[i]?) a.tracepoint.map_fst_effects
  simp only [List.getElem?_map, he, hname, Option.map_some, Option.some.injEq] at hends
  rw [hid, hends]

/-- An action is configured as the effect it performs. -/
theorem config_eq
    (h : a.Performs n) :
    a.tracepoint.effect? n = some a.config := by
  obtain ⟨i, e, he, hname, -, hconfig⟩ := h.exists_effect
  have heffects := congrArg (·[i]?) a.tracepoint.map_effect?_effectNames
  simp only [List.getElem?_map, he, hname, Option.map_some, Option.some.injEq] at heffects
  rw [heffects, hconfig]

theorem name_eq
    (hm : a.Performs m)
    (hn : a.Performs n) :
    m = n := by
  have hid := hm.id_eq
  rw [hn.id_eq] at hid
  exact (EffectName.append_text_injective hid).2.symm

end Performs

/-- Every action of a tracepoint performs one of its effects. -/
theorem exists_performs
    {tp : Tracepoint} {first : Nat}
    (ha : a ∈ tp.actions first) :
    a.tracepoint = tp ∧ ∃ n, a.Performs n := by
  have htp : a.tracepoint = tp := (Tracepoint.of_mem_actions ha).1
  subst htp
  obtain ⟨i, hi⟩ := List.getElem?_of_mem ha
  have hlength : (a.tracepoint.actions first).length = a.tracepoint.effectNames.length := by
    have hnames := congrArg List.length a.tracepoint.map_fst_effects
    rw [List.length_map, List.length_map] at hnames
    rw [← hnames, Tracepoint.actions, List.length_map, List.length_zipIdx]
  have hbound : i < a.tracepoint.effectNames.length := by
    rw [← hlength]
    exact (List.getElem?_eq_some_iff.1 hi).1
  exact ⟨rfl, _, first, i, hi, List.getElem?_eq_getElem hbound⟩

theorem Corresponds.id_eq
    (h : a.Corresponds b) :
    b.id = a.id := by
  obtain ⟨htp, n, ha, hb⟩ := h
  rw [ha.id_eq, hb.id_eq, htp]

theorem Corresponds.config_eq
    (h : a.Corresponds b) :
    b.config = a.config := by
  obtain ⟨htp, n, ha, hb⟩ := h
  have hconfig := hb.config_eq
  rw [htp, ha.config_eq] at hconfig
  exact (Option.some.inj hconfig).symm

end Action

namespace TriggerIndex

variable {tps : List Tracepoint} {tp : Tracepoint} {n : EffectName}

/-- An action of an index belongs to an accepted tracepoint of its set. -/
theorem exists_of_mem_build
    {key : Nat} {a : Action}
    (ha : a ∈ (build key tps).actions) :
    a.tracepoint ∈ tps ∧ accepts a.tracepoint = true ∧ ∃ n, a.Performs n := by
  obtain ⟨tp, htp, haccepts, first, hfirst⟩ :=
    exists_of_mem_bound ((perm_actions_build key tps).mem_iff.1 ha)
  obtain ⟨rfl, hname⟩ := Action.exists_performs hfirst
  exact ⟨htp, haccepts, hname⟩

/-- For each effect of an accepted tracepoint there is one action in the index. -/
theorem exists_unique_performing
    (hdistinct : (tps.map Tracepoint.id).Nodup)
    (htp : tp ∈ tps)
    (haccepts : accepts tp = true)
    (hn : n ∈ tp.effectNames)
    (key : Nat) :
    ∃! a, a ∈ (build key tps).actions ∧ a.tracepoint = tp ∧ a.Performs n := by
  obtain ⟨a, ha, hid, htracepoint⟩ := exists_mem_bound htp haccepts hn key
  have hmem := (perm_actions_build key tps).mem_iff.2 ha
  obtain ⟨-, -, m, hm⟩ := exists_of_mem_build hmem
  have hname : m = n := by
    have hids := hm.id_eq
    rw [hid, htracepoint] at hids
    exact (EffectName.append_text_injective hids).2.symm
  refine ⟨a, ⟨hmem, htracepoint, hname ▸ hm⟩, ?_⟩
  rintro b ⟨hb, hbtracepoint, hbname⟩
  refine id_injOn_build hdistinct hb hmem ?_
  rw [hbname.id_eq, hbtracepoint, hid]

/-- A rebuild leaves the statistics of earlier actions as they were. -/
theorem read_rebuild_of_lt
    {ledger : FireLedger} {k : Nat}
    (hk : k < ledger.next)
    (tps : List Tracepoint) (previous : TriggerIndex) :
    (rebuild ledger tps previous).2.read k = ledger.read k := by
  have hfresh : ∀ a ∈ (build ledger.next tps).actions, a.key ≠ k := by
    intro a ha
    have hkey := (key_mem_build ha).1
    omega
  exact (read_inherit_of_notMem hfresh).trans (FireLedger.read_extend _ _ _)

/-- A rebuilt action starts from the statistics of the one it corresponds to, and from zero where
there is none. Nothing of the previous statistics changes, and the index is that of the new set
alone. -/
theorem rebuild_carries_over
    {key : Nat} {ledger : FireLedger} {before : List Tracepoint}
    (hdistinct : (before.map Tracepoint.id).Nodup)
    (hkeys : ∀ old ∈ (build key before).actions, old.key < ledger.next)
    (after : List Tracepoint) :
    let previous := build key before
    let rebuilt := rebuild ledger after previous
    rebuilt.1 = build ledger.next after ∧
      (∀ a ∈ rebuilt.1.actions,
        (a.tracepoint ∈ before → ∃! old, old ∈ previous.actions ∧ a.Corresponds old) ∧
        (∀ old ∈ previous.actions, a.Corresponds old →
          rebuilt.2.read a.key = ledger.read old.key) ∧
        (a.tracepoint ∉ before → rebuilt.2.read a.key = .zero)) ∧
      ∀ k < ledger.next, rebuilt.2.read k = ledger.read k := by
  refine ⟨rfl, fun a ha => ?_, fun k hk => read_rebuild_of_lt hk after _⟩
  obtain ⟨-, haccepts, n, hn⟩ := exists_of_mem_build ha
  have hread := read_rebuild_of_mem hkeys ha
  refine ⟨fun hbefore => ?_, fun old hold hcorresponds => ?_, fun hgone => ?_⟩
  · obtain ⟨old, ⟨hold, htp, hname⟩, hunique⟩ :=
      exists_unique_performing hdistinct hbefore haccepts hn.mem_effectNames key
    refine ⟨old, ⟨hold, htp, n, hn, hname⟩, ?_⟩
    rintro other ⟨hother, htpOther, m, hm, hnameOther⟩
    rw [hm.name_eq hn] at hnameOther
    exact hunique other ⟨hother, htpOther, hnameOther⟩
  · have hids : ∀ x ∈ (build key before).actions, ∀ y ∈ (build key before).actions,
        x.id = y.id → x = y := fun x hx y hy => id_injOn_build hdistinct hx hy
    rw [hread, predecessor?_eq_some hids hold hcorresponds.id_eq hcorresponds.1]
  · have hnone : (build key before).predecessor? a = none := by
      refine predecessor?_eq_none ?_
      rintro old hold ⟨-, htp⟩
      exact hgone (htp ▸ (exists_of_mem_build hold).1)
    rw [hread, hnone]

/-- A tracepoint with a message and a metric. -/
def metered : Tracepoint :=
  ⟨"a", "a.py", 3, .ofList [("log_msg", "hit"), ("snapshot", "no_collect")], [],
    [⟨"hits", [], .counter, none, none, none, none⟩]⟩

/-- Its id is that of the metric of another one. -/
def namesake : Tracepoint := { metered with id := "a-metric-0" }

/-- Two tracepoints whose identifiers lead into one another. -/
theorem rebuild_carries_over_namesakes :
    let previous := build 0 [metered, namesake]
    let ledger : FireLedger := ⟨#[⟨1, some 10⟩, ⟨2, some 20⟩, ⟨3, some 30⟩, ⟨4, some 40⟩]⟩
    let rebuilt := rebuild ledger [namesake, { metered with lineNo := 4 }] previous
    (rebuilt.1.actions.map fun a => (a.id, rebuilt.2.read a.key)) =
        [("a-metric-0-log", ⟨3, some 30⟩), ("a-metric-0-metric-0", ⟨4, some 40⟩),
          ("a-log", .zero), ("a-metric-0", .zero)] ∧
      ∀ k < 4, rebuilt.2.read k = ledger.read k := by
  intro previous ledger rebuilt
  have hdistinct : ([metered, namesake].map Tracepoint.id).Nodup := by
    decide +kernel
  have hkeys : ∀ old ∈ (build 0 [metered, namesake]).actions, old.key < ledger.next := by
    decide +kernel
  have hcarried := rebuild_carries_over hdistinct hkeys [namesake, { metered with lineNo := 4 }]
  exact ⟨by decide +kernel, hcarried.2.2⟩

end TriggerIndex
end LiveProbe
