import Mathlib.Data.List.Nodup
import LiveProbe.Trigger.Index

/-!
# Names of actions

The id of an action is that of its tracepoint, and behind it a dash and the name of
what the action does.

**Unique reading.**  No name of an effect has a dash in its last word.  The last word
of an id thus tells the effect, and what is left in front of it is the id of the
tracepoint, whatever that looks like.

**Results.**
* `append_text_injective`: tracepoint and effect are told from the id of an action.
* `id_injOn_actions`: the actions of one tracepoint have different ids.
-/

namespace LiveProbe

/-- What a tracepoint may do, by the ends of the ids of its actions. -/
inductive EffectName
  | log
  | snapshot
  | metric (position : Nat)
  | span
  deriving DecidableEq

namespace EffectName

/-- The end of an id. -/
def text : EffectName → String
  | log => "-log"
  | snapshot => "-snapshot"
  | metric position => s!"-metric-{position}"
  | span => "-span"

/-- What stands behind the last dash of an id. -/
def lastWord : EffectName → List Char
  | log => ['l', 'o', 'g']
  | snapshot => ['s', 'n', 'a', 'p', 's', 'h', 'o', 't']
  | metric position => Nat.toDigits 10 position
  | span => ['s', 'p', 'a', 'n']

theorem toList_text
    (n : EffectName) :
    ∃ lead, n.text.toList = lead ++ '-' :: n.lastWord := by
  cases n with
  | log =>
      exact ⟨[], rfl⟩
  | snapshot =>
      exact ⟨[], rfl⟩
  | metric position =>
      refine ⟨"-metric".toList, ?_⟩
      have happend :
          (metric position).text.toList = "-metric-".toList ++ (toString position).toList :=
        String.toList_append
      rw [happend, Nat.toString_eq_ofList_toDigits]
      simp [lastWord]
  | span =>
      exact ⟨[], rfl⟩

theorem isDigit_of_mem_lastWord_metric
    {position : Nat} {c : Char}
    (hc : c ∈ (metric position).lastWord) :
    c.isDigit = true :=
  Nat.isDigit_of_mem_toDigits (by decide) (by decide) hc

/-- The last word of a name has no dash, so it stands behind the last one. -/
theorem dash_notMem_lastWord
    (n : EffectName) :
    '-' ∉ n.lastWord := by
  cases n with
  | log => decide
  | snapshot => decide
  | metric position =>
      intro hdash
      have hdigit := isDigit_of_mem_lastWord_metric hdash
      revert hdigit
      decide
  | span => decide

/-- A metric has digits where all others have letters. -/
theorem lastWord_injective
    {m n : EffectName}
    (h : m.lastWord = n.lastWord) :
    m = n := by
  have hdigits :
      ∀ (position : Nat) (c : Char) (rest : List Char),
        (metric position).lastWord = c :: rest →
        c.isDigit = true := by
    intro position c rest hword
    have hmem : c ∈ (metric position).lastWord := by
      rw [hword]
      exact List.mem_cons_self
    exact isDigit_of_mem_lastWord_metric hmem
  cases m with
  | metric i =>
      cases n with
      | metric j =>
          have hvalue := congrArg (fun w => Nat.ofDigitChars 10 w 0) h
          simp only [lastWord, Nat.ofDigitChars_ten_toDigits] at hvalue
          rw [hvalue]
      | log =>
          exact absurd (hdigits i _ _ h) (by decide)
      | snapshot =>
          exact absurd (hdigits i _ _ h) (by decide)
      | span =>
          exact absurd (hdigits i _ _ h) (by decide)
  | log =>
      cases n with
      | metric j =>
          exact absurd (hdigits j _ _ h.symm) (by decide)
      | log => rfl
      | snapshot => cases h
      | span => cases h
  | snapshot =>
      cases n with
      | metric j =>
          exact absurd (hdigits j _ _ h.symm) (by decide)
      | log => cases h
      | snapshot => rfl
      | span => cases h
  | span =>
      cases n with
      | metric j =>
          exact absurd (hdigits j _ _ h.symm) (by decide)
      | log => cases h
      | snapshot => cases h
      | span => rfl

/-- What stands behind the last dash is told from the whole. -/
theorem behind_lastDash
    {front other : List Char} {word last : List Char}
    (hword : '-' ∉ word)
    (hlast : '-' ∉ last)
    (h : front ++ '-' :: word = other ++ '-' :: last) :
    word = last := by
  have hback :
      ∀ (x w : List Char), '-' ∉ w →
        (x ++ '-' :: w).reverse.takeWhile (· != '-') = w.reverse := by
    intro x w hw
    have hall : ∀ c ∈ w.reverse, (c != '-') = true := by
      intro c hc
      rw [bne_iff_ne]
      rintro rfl
      exact hw (List.mem_reverse.1 hc)
    rw [List.reverse_append, List.reverse_cons, List.append_assoc,
      List.takeWhile_append_of_pos hall]
    simp
  have hsame := hback front word hword
  rw [h, hback other last hlast] at hsame
  exact (List.reverse_injective hsame).symm

/-- An identifier of an action tells the identifier of its tracepoint and the effect apart. -/
theorem append_text_injective
    {a b : String} {m n : EffectName}
    (h : a ++ m.text = b ++ n.text) :
    a = b ∧ m = n := by
  have hchars := congrArg String.toList h
  rw [String.toList_append, String.toList_append] at hchars
  obtain ⟨lead, hlead⟩ := m.toList_text
  obtain ⟨other, hother⟩ := n.toList_text
  have hwords := hchars
  rw [hlead, hother, ← List.append_assoc, ← List.append_assoc] at hwords
  have hname : m = n :=
    lastWord_injective
      (behind_lastDash (dash_notMem_lastWord m) (dash_notMem_lastWord n) hwords)
  subst hname
  exact ⟨String.toList_injective (List.append_cancel_right hchars), rfl⟩

end EffectName

namespace Tracepoint

/-- The effects of a tracepoint by name. -/
def effectNames (tp : Tracepoint) : List EffectName :=
  (if tp.logMsg?.isSome then [.log] else []) ++
    (if tp.collectsSnapshot then [.snapshot] else []) ++
    (List.range tp.metrics.length).map .metric ++
    (if tp.span?.isSome then [.span] else [])

/-- The suffixes of the effects are the texts of their names. -/
theorem map_fst_effects
    (tp : Tracepoint) :
    tp.effects.map Prod.fst = tp.effectNames.map EffectName.text := by
  have hmetrics :
      tp.metricEffects.map Prod.fst =
        ((List.range tp.metrics.length).map EffectName.metric).map EffectName.text := by
    unfold metricEffects
    rw [List.map_map, List.map_map]
    refine List.ext_getElem (by simp) fun i _ _ => ?_
    simp [EffectName.text]
  have hspan :
      tp.spanEffect.map Prod.fst =
        (if tp.span?.isSome then [EffectName.span] else []).map EffectName.text := by
    unfold spanEffect
    rcases tp.span? with _ | _ | _ <;> rfl
  unfold effects effectNames
  simp only [List.map_append]
  rw [hmetrics, hspan]
  cases tp.logMsg? <;> cases tp.collectsSnapshot <;> rfl

/-- No two effects of a tracepoint have one name. -/
theorem nodup_effectNames
    (tp : Tracepoint) :
    tp.effectNames.Nodup := by
  have hmetrics : ((List.range tp.metrics.length).map EffectName.metric).Nodup :=
    List.Nodup.map (fun _ _ h => EffectName.metric.inj h) List.nodup_range
  unfold effectNames
  cases tp.logMsg?.isSome <;> cases tp.collectsSnapshot <;> cases tp.span?.isSome <;>
    simp [List.nodup_append, hmetrics]

/-- The actions of a tracepoint, one for each effect, with keys in order. -/
theorem mem_actions_iff
    {tp : Tracepoint} {key : Nat} {a : Action} :
    a ∈ tp.actions key ↔
      ∃ i e, tp.effects[i]? = some e ∧
        a = .ofTracepoint (tp.id ++ e.1) tp e.2 (key + i) := by
  unfold actions
  rw [List.mem_map]
  constructor
  · rintro ⟨⟨e, i⟩, hmem, rfl⟩
    exact ⟨i, e, List.mem_zipIdx_iff_getElem?.1 hmem, rfl⟩
  · rintro ⟨i, e, he, rfl⟩
    exact ⟨(e, i), List.mem_zipIdx_iff_getElem?.2 he, rfl⟩

/-- An action of a tracepoint has its condition and its limits, and a name that tells
the effect. -/
theorem of_mem_actions
    {tp : Tracepoint} {key : Nat} {a : Action}
    (ha : a ∈ tp.actions key) :
    a.tracepoint = tp ∧
      a.limits = .ofTracepoint tp ∧
      ∃ n ∈ tp.effectNames, a.id = tp.id ++ n.text := by
  obtain ⟨i, e, he, rfl⟩ := mem_actions_iff.1 ha
  refine ⟨rfl, rfl, ?_⟩
  have hname : e.1 ∈ tp.effects.map Prod.fst :=
    List.mem_map_of_mem (List.mem_of_getElem? he)
  rw [map_fst_effects] at hname
  obtain ⟨n, hn, htext⟩ := List.mem_map.1 hname
  exact ⟨n, hn, by rw [htext]; rfl⟩

theorem exists_mem_actions
    {tp : Tracepoint} {n : EffectName}
    (hn : n ∈ tp.effectNames)
    (key : Nat) :
    ∃ a ∈ tp.actions key, a.id = tp.id ++ n.text ∧ a.tracepoint = tp := by
  have htext : n.text ∈ tp.effects.map Prod.fst := by
    rw [map_fst_effects]
    exact List.mem_map_of_mem hn
  obtain ⟨e, he, htext⟩ := List.mem_map.1 htext
  obtain ⟨i, hi⟩ := List.getElem?_of_mem he
  refine ⟨_, mem_actions_iff.2 ⟨i, e, hi, rfl⟩, ?_, rfl⟩
  rw [← htext]
  rfl

/-- Actions of a tracepoint are told apart by their identifiers. -/
theorem id_injOn_actions
    {tp : Tracepoint} {key : Nat} {a b : Action}
    (ha : a ∈ tp.actions key)
    (hb : b ∈ tp.actions key)
    (h : a.id = b.id) :
    a = b := by
  obtain ⟨i, e, he, rfl⟩ := mem_actions_iff.1 ha
  obtain ⟨j, d, hd, rfl⟩ := mem_actions_iff.1 hb
  have hnodup : (tp.effects.map Prod.fst).Nodup := by
    rw [map_fst_effects]
    refine List.Nodup.map_on ?_ tp.nodup_effectNames
    intro m _ n _ htext
    exact (EffectName.append_text_injective (congrArg (tp.id ++ ·) htext)).2
  have hname : e.1 = d.1 := by
    have hchars := congrArg String.toList h
    simp only [Action.ofTracepoint, String.toList_append] at hchars
    exact String.toList_injective (List.append_cancel_left hchars)
  have hposition : i = j := by
    refine (List.getElem?_inj ?_ hnodup).1 ?_
    · rw [List.length_map]
      exact (List.getElem?_eq_some_iff.1 he).1
    · rw [List.getElem?_map, List.getElem?_map, he, hd, Option.map_some, Option.map_some, hname]
  subst hposition
  rw [he] at hd
  rw [Option.some.inj hd]

end Tracepoint
end LiveProbe
