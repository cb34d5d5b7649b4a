import LiveProbe.Metric.Store
import Mathlib.Data.List.Basic

/-!
# Series and their keys

Which observations are gathered together.

**Specification.**  A series is a qualified name with labels (`MetricSample.SameSeries`).
Its key is a text in which nothing is escaped.  One sample swallows another one
(`MetricSample.Swallows`) if a name, a key or a value of it goes on where that of the other
one ends, over the delimiter behind it, and the two keys agree from there on.

**Plain samples.**  A brace in a name, an equality sign in a key or a comma in a value is
what it takes to swallow a sample; values of labels come from the observed program and may
hold any text.

**Results.**
* `MetricSample.seriesKey_eq_iff`: keys agree for the samples of one series and for those
  of which one swallows the other.
* `MetricStore.gathered_recordAll`: what a run of observations leaves under a key.
* `MetricStore.merged_iff_swallows`: both together, and plain samples are gathered by
  their series.
* `MetricStore.comma_merges_series`: a comma in a value merges two series.
-/

namespace LiveProbe
namespace MetricSample

/-- Qualified name and labels agree. -/
def SameSeries (s t : MetricSample) : Prop :=
  s.qualifiedName = t.qualifiedName ∧ s.labels = t.labels

instance (s t : MetricSample) : Decidable (s.SameSeries t) :=
  inferInstanceAs (Decidable (_ ∧ _))

/-- What a key has behind the value of a label, the further labels and the closing brace. -/
def behindValue : List (String × String) → List Char
  | [] => ['\x7d']
  | l :: ls => ',' :: (labelText l).toList ++ behindValue ls

/-- What a key has behind the name. -/
def behindName : List (String × String) → List Char
  | [] => []
  | l :: ls => '\x7b' :: (labelText l).toList ++ behindValue ls

/-- At the first label in which two rows of labels differ, the second row has a key or a value
that goes on over the delimiter of the first row. -/
inductive Overruns : List (String × String) → List (String × String) → Prop
  | key {k k' v v' : String} {ls ms : List (String × String)} (x : List Char)
      (longer : k'.toList = k.toList ++ '=' :: x)
      (rest : v.toList ++ behindValue ls = x ++ '=' :: v'.toList ++ behindValue ms) :
      Overruns ((k, v) :: ls) ((k', v') :: ms)
  | value {k v v' : String} {l : String × String} {ls ms : List (String × String)}
      (x : List Char)
      (longer : v'.toList = v.toList ++ ',' :: x)
      (rest : (labelText l).toList ++ behindValue ls = x ++ behindValue ms) :
      Overruns ((k, v) :: l :: ls) ((k, v') :: ms)
  | later {l : String × String} {ls ms : List (String × String)} (behind : Overruns ls ms) :
      Overruns (l :: ls) (l :: ms)

/-- The name of the second sample, or a label of it, goes on over a delimiter of the first. -/
def Swallows (s t : MetricSample) : Prop :=
  (∃ x, t.qualifiedName.toList = s.qualifiedName.toList ++ '\x7b' :: x ∧
      behindName s.labels.entries = '\x7b' :: x ++ behindName t.labels.entries) ∨
    s.qualifiedName = t.qualifiedName ∧ Overruns s.labels.entries t.labels.entries

/-- Samples that are not told apart. -/
def Merges (s t : MetricSample) : Prop := s.SameSeries t ∨ s.Swallows t ∨ t.Swallows s

/-- No delimiter stands in a place in which it could be taken for one. -/
structure IsPlain (s : MetricSample) : Prop where
  name : '\x7b' ∉ s.qualifiedName.toList
  keys : ∀ l ∈ s.labels.entries, '=' ∉ l.1.toList
  values : ∀ l ∈ s.labels.entries, ',' ∉ l.2.toList

/-! ### Keys as texts -/

/-- A label is written with an equals between key and value. -/
theorem toList_labelText
    (k v : String) :
    (labelText (k, v)).toList = k.toList ++ '=' :: v.toList := by
  rw [labelText, String.toList_append, String.toList_append, List.append_assoc]
  rfl

/-- Behind a label stand the further ones or the closing brace. -/
theorem toList_intercalate_labels
    (l : String × String) (ls : List (String × String)) :
    (String.intercalate "," ((l :: ls).map labelText)).toList ++ ['\x7d'] =
      (labelText l).toList ++ behindValue ls := by
  induction ls generalizing l with
  | nil =>
      rw [List.map_cons, List.map_nil, String.intercalate_singleton, behindValue]
  | cons m ls ih =>
      rw [List.map_cons, List.map_cons, String.intercalate_cons_cons, ← List.map_cons,
        String.toList_append, String.toList_append, List.append_assoc, ih m, behindValue,
        List.append_assoc]
      rfl

/-- The key of a series is its name and what stands behind it. -/
theorem toList_seriesKey
    (s : MetricSample) :
    s.seriesKey.toList = s.qualifiedName.toList ++ behindName s.labels.entries := by
  rw [seriesKey, SortedMap.isEmpty]
  cases hlabels : s.labels.entries with
  | nil =>
      rw [behindName, List.append_nil]
      rfl
  | cons l ls =>
      rw [List.isEmpty_cons, if_neg Bool.false_ne_true, String.toList_append, String.toList_append,
        String.toList_append, List.append_assoc, List.append_assoc]
      exact congrArg (s.qualifiedName.toList ++ '\x7b' :: ·) (toList_intercalate_labels l ls)

/-! ### Where two texts part -/

/-- Of two texts in front of delimiters one ends where the other does, or it goes on over the
delimiter of the other. -/
theorem append_delimiter_cases
    {d e : Char} {xs ys as bs : List Char}
    (h : xs ++ d :: as = ys ++ e :: bs) :
    xs = ys ∧ d :: as = e :: bs ∨
      (∃ x, ys = xs ++ d :: x ∧ as = x ++ e :: bs) ∨
        ∃ x, xs = ys ++ e :: x ∧ bs = x ++ d :: as := by
  rcases List.append_eq_append_iff.1 h with ⟨x, rfl, hx⟩ | ⟨x, rfl, hx⟩
  · cases x with
    | nil => exact Or.inl ⟨(List.append_nil _).symm, hx⟩
    | cons c x =>
        obtain ⟨rfl, has⟩ := List.cons.inj hx
        exact Or.inr (Or.inl ⟨x, rfl, has⟩)
  · cases x with
    | nil => exact Or.inl ⟨List.append_nil _, hx.symm⟩
    | cons c x =>
        obtain ⟨rfl, hbs⟩ := List.cons.inj hx
        exact Or.inr (Or.inr ⟨x, rfl, hbs⟩)

variable {ls ms : List (String × String)}

theorem behindValue_ne_nil
    (ls : List (String × String)) :
    behindValue ls ≠ [] := by
  cases ls with
  | nil => exact List.cons_ne_nil _ _
  | cons l ls => exact List.cons_ne_nil _ _

/-- Where labels overrun others, both are written the same. -/
theorem Overruns.behindValue_eq
    (h : Overruns ls ms) :
    behindValue ls = behindValue ms := by
  induction h with
  | key x longer rest =>
      simp [behindValue, toList_labelText, longer, rest]
  | value x longer rest =>
      simp [behindValue, toList_labelText, longer, rest]
  | later _ ih =>
      rw [behindValue, behindValue, ih]

/-- A value goes on over a delimiter only where another label follows. -/
theorem overruns_of_longer
    {k v v' : String} {d : Char} {rest x : List Char}
    (hbehind : behindValue ls = d :: rest)
    (hlonger : v'.toList = v.toList ++ d :: x)
    (hrest : rest = x ++ behindValue ms) :
    Overruns ((k, v) :: ls) ((k, v') :: ms) := by
  cases ls with
  | nil =>
      obtain ⟨-, rfl⟩ := List.cons.inj hbehind
      exact absurd (List.append_eq_nil_iff.1 hrest.symm).2 (behindValue_ne_nil ms)
  | cons l ls =>
      obtain ⟨rfl, rfl⟩ := List.cons.inj hbehind
      exact .value x hlonger hrest

/-- Two values written the same with what is behind them are equal, or one goes on into the labels
of the other. -/
theorem overruns_of_value
    {k v v' : String}
    (h : v.toList ++ behindValue ls = v'.toList ++ behindValue ms)
    (hlater : behindValue ls = behindValue ms → ls = ms ∨ Overruns ls ms ∨ Overruns ms ls) :
    (k, v) :: ls = (k, v') :: ms ∨ Overruns ((k, v) :: ls) ((k, v') :: ms) ∨
      Overruns ((k, v') :: ms) ((k, v) :: ls) := by
  obtain ⟨d, rest, hls⟩ := List.exists_cons_of_ne_nil (behindValue_ne_nil ls)
  obtain ⟨e, rest', hms⟩ := List.exists_cons_of_ne_nil (behindValue_ne_nil ms)
  rw [hls, hms] at h
  rcases append_delimiter_cases h with ⟨hv, hsame⟩ | ⟨x, hv, hrest⟩ | ⟨x, hv, hrest⟩
  · rw [String.toList_inj] at hv
    subst hv
    rcases hlater (hls.trans (hsame.trans hms.symm)) with rfl | hover | hover
    · exact Or.inl rfl
    · exact Or.inr (Or.inl (.later hover))
    · exact Or.inr (Or.inr (.later hover))
  · rw [← hms] at hrest
    exact Or.inr (Or.inl (overruns_of_longer hls hv hrest))
  · rw [← hls] at hrest
    exact Or.inr (Or.inr (overruns_of_longer hms hv hrest))

theorem overruns_of_label
    {l m : String × String}
    (h : (labelText l).toList ++ behindValue ls = (labelText m).toList ++ behindValue ms)
    (hlater : behindValue ls = behindValue ms → ls = ms ∨ Overruns ls ms ∨ Overruns ms ls) :
    l :: ls = m :: ms ∨ Overruns (l :: ls) (m :: ms) ∨ Overruns (m :: ms) (l :: ls) := by
  obtain ⟨k, v⟩ := l
  obtain ⟨k', v'⟩ := m
  rw [toList_labelText, toList_labelText, List.append_assoc, List.append_assoc] at h
  rcases append_delimiter_cases h with ⟨hk, hsame⟩ | ⟨x, hk, hrest⟩ | ⟨x, hk, hrest⟩
  · rw [String.toList_inj] at hk
    subst hk
    exact overruns_of_value (List.cons.inj hsame).2 hlater
  · refine Or.inr (Or.inl (.key x hk ?_))
    rw [List.append_assoc]
    exact hrest
  · refine Or.inr (Or.inr (.key x hk ?_))
    rw [List.append_assoc]
    exact hrest

/-- Rows of labels that are written the same are equal, or one overruns the other. -/
theorem overruns_of_behindValue
    (h : behindValue ls = behindValue ms) :
    ls = ms ∨ Overruns ls ms ∨ Overruns ms ls := by
  induction ls generalizing ms with
  | nil =>
      cases ms with
      | nil => exact Or.inl rfl
      | cons m ms => exact absurd (List.cons.inj h).1 (by decide)
  | cons l ls ih =>
      cases ms with
      | nil => exact absurd (List.cons.inj h).1 (by decide)
      | cons m ms => exact overruns_of_label (List.cons.inj h).2 ih

theorem overruns_of_behindName
    (h : behindName ls = behindName ms) :
    ls = ms ∨ Overruns ls ms ∨ Overruns ms ls := by
  cases ls with
  | nil =>
      cases ms with
      | nil => exact Or.inl rfl
      | cons m ms => cases h
  | cons l ls =>
      cases ms with
      | nil => cases h
      | cons m ms => exact overruns_of_label (List.cons.inj h).2 overruns_of_behindValue

/-- Behind different labels the rows are not empty, so that a brace stands in front of them. -/
theorem Overruns.behindName_eq
    (h : Overruns ls ms) :
    behindName ls = behindName ms := by
  have hvalue := h.behindValue_eq
  cases ls with
  | nil => cases h
  | cons l ls =>
      cases ms with
      | nil => cases h
      | cons m ms => exact congrArg ('\x7b' :: ·) (List.cons.inj hvalue).2

variable {s t : MetricSample}

/-- A name that swallows labels has the key of the series with those labels. -/
theorem Swallows.seriesKey_eq
    (h : s.Swallows t) :
    s.seriesKey = t.seriesKey := by
  rw [← String.toList_inj, toList_seriesKey, toList_seriesKey]
  rcases h with ⟨x, hname, hrest⟩ | ⟨hname, hover⟩
  · rw [hname, hrest, List.append_assoc]
  · rw [hname, hover.behindName_eq]

/-- A longer name with the same key swallows, or its labels overrun. -/
theorem swallows_of_append
    {x : List Char}
    (hname : t.qualifiedName.toList = s.qualifiedName.toList ++ x)
    (hrest : behindName s.labels.entries = x ++ behindName t.labels.entries) :
    s.Merges t := by
  cases x with
  | nil =>
      rw [List.append_nil, String.toList_inj] at hname
      rcases overruns_of_behindName hrest with hlabels | hover | hover
      · exact Or.inl ⟨hname.symm, SortedMap.ext_entries hlabels⟩
      · exact Or.inr (Or.inl (Or.inr ⟨hname.symm, hover⟩))
      · exact Or.inr (Or.inr (Or.inr ⟨hname, hover⟩))
  | cons c x =>
      refine Or.inr (Or.inl (Or.inl ⟨x, ?_⟩))
      cases hlabels : s.labels.entries with
      | nil =>
          rw [hlabels] at hrest
          cases hrest
      | cons l ls =>
          rw [hlabels] at hrest
          obtain ⟨rfl, -⟩ := List.cons.inj hrest
          exact ⟨hname, hrest⟩

/-- Keys are equal exactly for samples that merge. -/
theorem seriesKey_eq_iff :
    s.seriesKey = t.seriesKey ↔ s.Merges t := by
  constructor
  · intro h
    rw [← String.toList_inj, toList_seriesKey, toList_seriesKey] at h
    rcases List.append_eq_append_iff.1 h with ⟨x, hname, hrest⟩ | ⟨x, hname, hrest⟩
    · exact swallows_of_append hname hrest
    · rcases swallows_of_append hname hrest with hsame | hswallows | hswallows
      · exact Or.inl ⟨hsame.1.symm, hsame.2.symm⟩
      · exact Or.inr (Or.inr hswallows)
      · exact Or.inr (Or.inl hswallows)
  · rintro (⟨hname, hlabels⟩ | hswallows | hswallows)
    · rw [seriesKey, seriesKey, hname, hlabels]
    · exact hswallows.seriesKey_eq
    · exact hswallows.seriesKey_eq.symm

instance (s t : MetricSample) : Decidable (s.Merges t) := decidable_of_iff _ seriesKey_eq_iff

/-! ### Plain samples -/

/-- Labels that overrun others meet a delimiter in a key or a value. -/
theorem Overruns.exists_delimiter
    (h : Overruns ls ms) :
    ∃ m ∈ ms, '=' ∈ m.1.toList ∨ ',' ∈ m.2.toList := by
  induction h with
  | key x longer =>
      refine ⟨_, List.mem_cons_self, Or.inl ?_⟩
      rw [longer]
      exact List.mem_append_right _ List.mem_cons_self
  | value x longer =>
      refine ⟨_, List.mem_cons_self, Or.inr ?_⟩
      rw [longer]
      exact List.mem_append_right _ List.mem_cons_self
  | later _ ih =>
      obtain ⟨m, hm, hdelimiter⟩ := ih
      exact ⟨m, List.mem_cons_of_mem _ hm, hdelimiter⟩

theorem IsPlain.not_swallows
    (h : t.IsPlain) :
    ¬ s.Swallows t := by
  rintro (⟨x, hname, -⟩ | ⟨-, hover⟩)
  · refine h.name ?_
    rw [hname]
    exact List.mem_append_right _ List.mem_cons_self
  · obtain ⟨m, hm, hkey | hvalue⟩ := hover.exists_delimiter
    · exact h.keys m hm hkey
    · exact h.values m hm hvalue

/-- Without delimiters only samples of one series merge. -/
theorem merges_iff_of_plain
    (hs : s.IsPlain)
    (ht : t.IsPlain) :
    s.Merges t ↔ s.SameSeries t := by
  constructor
  · rintro (hsame | hswallows | hswallows)
    · exact hsame
    · exact absurd hswallows ht.not_swallows
    · exact absurd hswallows hs.not_swallows
  · exact Or.inl

end MetricSample

/-! ### Series in memory -/

/-- What is gathered of one series. -/
inductive Gathered
  | number (value : Float)
  | distribution (histogram : Histogram)

namespace MetricStore

/-- What is gathered under a key by observations of one kind. -/
def gathered (m : MetricStore) (kind : MetricType) (key : String) : Option Gathered :=
  match kind with
  | .counter => (m.counters.get? key).map .number
  | .gauge => (m.gauges.get? key).map .number
  | .histogram => (m.histograms.get? key).map .distribution
  | .summary => (m.summaries.get? key).map .distribution

/-- What one more observation makes of what is gathered. -/
def gather (kind : MetricType) (before : Option Gathered) (value : Float) : Gathered :=
  match kind, before with
  | .counter, some (.number total) => .number (total + value)
  | .counter, _ | .gauge, _ => .number value
  | .histogram, some (.distribution h) | .summary, some (.distribution h) =>
      .distribution (h.observe value)
  | .histogram, _ | .summary, _ => .distribution (Histogram.empty.observe value)

/-- A run of observations, each with its kind. -/
def recordAll (m : MetricStore) (run : List (MetricType × MetricSample)) : MetricStore :=
  run.foldl (fun m o => m.record o.1 o.2) m

/-- What a run of observations of one kind and series makes of what is gathered. -/
def gatherAll (kind : MetricType) (before : Option Gathered)
    (run : List (MetricType × MetricSample)) : Option Gathered :=
  run.foldl (fun g o => some (gather kind g o.2.value)) before

/-- A sample is gathered under its kind and key, and changes no other series. -/
theorem gathered_record
    (m : MetricStore) (kind other : MetricType) (s : MetricSample) (key : String) :
    (m.record other s).gathered kind key =
      if other = kind ∧ s.seriesKey = key then some (gather kind (m.gathered kind key) s.value)
      else m.gathered kind key := by
  by_cases hkey : s.seriesKey = key
  · subst hkey
    cases other with
    | counter =>
        cases kind with
        | counter =>
            cases hget : m.counters.get? s.seriesKey <;>
              simp [record, gathered, gather, addTo, SortedMap.get?_insert_self, hget]
        | gauge | histogram | summary => simp [record, gathered]
    | gauge =>
        cases kind with
        | gauge => simp [record, gathered, gather, SortedMap.get?_insert_self]
        | counter | histogram | summary => simp [record, gathered]
    | histogram =>
        cases kind with
        | histogram =>
            cases hget : m.histograms.get? s.seriesKey <;>
              simp [record, gathered, gather, observeIn, SortedMap.get?_insert_self, hget]
        | counter | gauge | summary => simp [record, gathered]
    | summary =>
        cases kind with
        | summary =>
            cases hget : m.summaries.get? s.seriesKey <;>
              simp [record, gathered, gather, observeIn, SortedMap.get?_insert_self, hget]
        | counter | gauge | histogram => simp [record, gathered]
  · have hne : key ≠ s.seriesKey := fun h => hkey h.symm
    rw [if_neg fun h => hkey h.2]
    cases other <;> cases kind <;>
      simp [record, gathered, addTo, observeIn, SortedMap.get?_insert_of_ne, hne]

/-- A run gathers, under a key, the values of its samples with that kind and key in order. -/
theorem gathered_recordAll
    (m : MetricStore) (kind : MetricType) (key : String) (run : List (MetricType × MetricSample)) :
    (m.recordAll run).gathered kind key =
      gatherAll kind (m.gathered kind key)
        (run.filter fun o => o.1 = kind ∧ o.2.seriesKey = key) := by
  induction run generalizing m with
  | nil => rfl
  | cons o run ih =>
      rw [recordAll, List.foldl_cons, ← recordAll, ih, gathered_record, List.filter_cons]
      by_cases ho : o.1 = kind ∧ o.2.seriesKey = key
      · rw [if_pos ho, if_pos (decide_eq_true ho)]
        rfl
      · rw [if_neg ho, if_neg (by simpa using ho)]

/-- Keys agree for the samples of one series and where one sample swallows the other, and
under a key is gathered what these samples observe; plain samples are gathered by their
series. -/
theorem merged_iff_swallows
    (m : MetricStore) (kind : MetricType) (t : MetricSample)
    (run : List (MetricType × MetricSample)) :
    (∀ s : MetricSample,
      s.seriesKey = t.seriesKey ↔ s.SameSeries t ∨ s.Swallows t ∨ t.Swallows s) ∧
    (m.recordAll run).gathered kind t.seriesKey =
      gatherAll kind (m.gathered kind t.seriesKey)
        (run.filter fun o => o.1 = kind ∧ o.2.Merges t) ∧
    (t.IsPlain → (∀ o ∈ run, o.1 = kind → o.2.IsPlain) →
      (m.recordAll run).gathered kind t.seriesKey =
        gatherAll kind (m.gathered kind t.seriesKey)
          (run.filter fun o => o.1 = kind ∧ o.2.SameSeries t)) := by
  have hgathered := gathered_recordAll m kind t.seriesKey run
  simp only [MetricSample.seriesKey_eq_iff] at hgathered
  refine ⟨fun s => MetricSample.seriesKey_eq_iff, hgathered, fun ht hrun => ?_⟩
  rw [hgathered]
  refine congrArg (gatherAll kind _) (List.filter_congr fun o ho => ?_)
  rw [decide_eq_decide]
  exact and_congr_right fun hkind => MetricSample.merges_iff_of_plain (hrun o ho hkind) ht

/-- An observation of one hit on a route. -/
def hit (labels : List (String × String)) : MetricSample :=
  ⟨"hits", .ofList labels, some "web", none, none, 1⟩

/-- Plain labels with signs that are no delimiters of theirs, and a series of another kind. -/
theorem merged_iff_swallows_routes :
    (hit [("route", "/a=b"), ("zone", "\x7beu\x7d")]).IsPlain ∧
      (empty.recordAll [(.counter, hit [("route", "/a=b"), ("zone", "\x7beu\x7d")]),
          (.gauge, hit [("route", "/a=b"), ("zone", "\x7beu\x7d")]),
          (.counter, hit [("route", "/a=b")])]).gathered .counter
        (hit [("route", "/a=b"), ("zone", "\x7beu\x7d")]).seriesKey = some (.number 1) := by
  have hzone : (hit [("route", "/a=b"), ("zone", "\x7beu\x7d")]).IsPlain :=
    ⟨by decide, by decide, by decide⟩
  have hroute : (hit [("route", "/a=b")]).IsPlain := ⟨by decide, by decide, by decide⟩
  refine ⟨hzone, ?_⟩
  rw [(merged_iff_swallows empty .counter _ _).2.2 hzone ?_]
  · rfl
  · intro o ho hkind
    simp only [List.mem_cons, List.not_mem_nil, or_false] at ho
    rcases ho with rfl | rfl | rfl
    · exact hzone
    · exact hzone
    · exact hroute

/-- A comma in a value makes one series of two. -/
theorem comma_merges_series :
    ¬ (hit [("a", "1,b=2")]).SameSeries (hit [("a", "1"), ("b", "2")]) ∧
      (hit [("a", "1,b=2")]).seriesKey = (hit [("a", "1"), ("b", "2")]).seriesKey ∧
      (empty.recordAll [(.counter, hit [("a", "1,b=2")]),
          (.counter, hit [("a", "1"), ("b", "2")])]).gathered .counter
        (hit [("a", "1"), ("b", "2")]).seriesKey = some (.number (1 + 1)) ∧
      ¬ ∀ s t : MetricSample, s.seriesKey = t.seriesKey ↔ s.SameSeries t := by
  have hother : ¬ (hit [("a", "1,b=2")]).SameSeries (hit [("a", "1"), ("b", "2")]) := by
    decide
  have hkey : (hit [("a", "1,b=2")]).seriesKey = (hit [("a", "1"), ("b", "2")]).seriesKey := by
    decide
  exact ⟨hother, hkey, by rfl, fun hall => hother ((hall _ _).1 hkey)⟩

end MetricStore
end LiveProbe
