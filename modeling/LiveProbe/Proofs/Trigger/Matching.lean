import LiveProbe.Proofs.Trigger.Rebuild
import LiveProbe.Proofs.Trigger.Suffix

/-!
# Finding triggers

Which actions an event finds in an index.

**Buckets.**  Triggers are looked up by the last component of the path at run time.  No
trigger outside that bucket could be hit: a path that ends in a configured one, behind a
separator, has its last component (`baseName_of_pathsMatch`).

**Invariant.**  A bucket holds the triggers of its file, of each location one, and a
trigger holds actions of its own location (`Placed`).  Looking up is then the same as going
through all actions (`flatMap_matching`), and merging keeps the actions of each location in
the order of their tracepoints.

**Results.**
* `matching_build`: an event finds the actions of the tracepoints that it hits.
* `matching_build_inert`: a tracepoint without actions leaves no bucket.
-/

namespace LiveProbe

/-! ### Paths -/

namespace Path

/-- What leads up to a separator is no part of the base name. -/
theorem baseChars_append_separator
    (cs ds : List Char)
    {c : Char}
    (hc : isSeparator c = true) :
    baseChars (cs ++ c :: ds) = baseChars ds := by
  unfold baseChars
  rw [List.reverse_append, List.reverse_cons, List.append_assoc, List.takeWhile_append]
  split
  · next hwhole =>
      have hnone : ds.reverse.takeWhile (fun c => !isSeparator c) = ds.reverse :=
        (List.takeWhile_prefix _).eq_of_length hwhole
      simp [hc, hnone]
  · rfl

theorem baseChars_dropHere
    (cs : List Char) :
    baseChars (dropHere cs) = baseChars cs := by
  fun_induction dropHere cs with
  | case1 cs ih =>
      rw [ih]
      exact (baseChars_append_separator ['.'] cs (by decide)).symm
  | case2 => rfl

/-- Paths of which one ends in the other have one base name. -/
theorem baseChars_of_endsBehindSeparator
    {runtime configured : List Char}
    (h : endsBehindSeparator runtime configured = true) :
    baseChars runtime = baseChars configured := by
  obtain ⟨lead, c, hc, rfl⟩ := endsBehindSeparator_iff.1 h
  exact baseChars_append_separator lead configured hc

/-- Paths that match have one base name, so matches are found in one bucket. -/
theorem baseName_of_pathsMatch
    {runtime configured : String}
    (h : pathsMatch runtime configured = true) :
    baseName runtime = baseName configured := by
  unfold pathsMatch at h
  rw [Bool.or_eq_true, beq_iff_eq] at h
  rcases h with rfl | h
  · rfl
  · unfold baseName
    rw [baseChars_of_endsBehindSeparator h, baseChars_dropHere]

end Path

/-- A location that is hit is filed under the base name of the file. -/
theorem Location.fileName_of_isHit
    {l : Location} {event : TraceEvent} {file : String} {line : UInt32} {function : String}
    (h : l.isHit event file line function = true) :
    l.fileName = Path.baseName file := by
  unfold isHit at h
  unfold fileName
  split at h <;> rw [Bool.and_eq_true] at h <;> exact (Path.baseName_of_pathsMatch h.2).symm

/-! ### Tracepoints -/

namespace Tracepoint

/-- The tracepoint has no fault. -/
def isValid (tp : Tracepoint) : Bool := tp.validate.isOk

/-- The actions of a tracepoint, whatever their keys. -/
def contents (tp : Tracepoint) : List Action :=
  tp.effects.map fun e => .ofTracepoint (tp.id ++ e.1) tp e.2 0

end Tracepoint

/-- An action without its key. -/
def Action.content (a : Action) : Action := { a with key := 0 }

namespace Tracepoint

/-- The actions of a tracepoint, but for their keys. -/
theorem map_content_actions
    (tp : Tracepoint) (key : Nat) :
    (tp.actions key).map Action.content = tp.contents := by
  unfold actions contents
  rw [List.map_map]
  refine List.ext_getElem (by simp) fun i _ _ => ?_
  simp [Action.ofTracepoint, Action.content]

theorem tracepoint_of_mem_actions
    {tp : Tracepoint} {key : Nat} {a : Action}
    (ha : a ∈ tp.actions key) :
    a.tracepoint = tp := by
  obtain ⟨e, -, rfl⟩ := List.mem_map.mp ha
  rfl

end Tracepoint

namespace TriggerIndex

/-- A tracepoint is accepted if it is valid and has something to do. -/
theorem accepts_eq
    (tp : Tracepoint) :
    accepts tp = (tp.isValid && !tp.effects.isEmpty) := by
  unfold accepts Tracepoint.isValid
  cases tp.validate <;> rfl

/-- A test of tracepoints keeps all actions of one or none. -/
theorem filter_actions
    (tp : Tracepoint) (key : Nat) (p : Tracepoint → Bool) :
    (tp.actions key).filter (fun a => p a.tracepoint) =
      if p tp then tp.actions key else [] := by
  split
  · next hp =>
      refine List.filter_eq_self.mpr fun a ha => ?_
      rwa [Tracepoint.tracepoint_of_mem_actions ha]
  · next hp =>
      refine List.filter_eq_nil_iff.mpr fun a ha => ?_
      rwa [Tracepoint.tracepoint_of_mem_actions ha]

/-- Without their keys, the actions are those of the valid tracepoints in turn. -/
theorem map_content_filter_bound
    (key : Nat) (tps : List Tracepoint) (p : Tracepoint → Bool) :
    ((bound key tps).filter fun a => p a.tracepoint).map Action.content =
      (tps.filter fun tp => tp.isValid && p tp).flatMap Tracepoint.contents := by
  induction tps generalizing key with
  | nil => rfl
  | cons tp tps ih =>
      have haccepts := accepts_eq tp
      rw [bound, List.filter_cons]
      cases hvalid : tp.isValid with
      | false =>
          rw [hvalid, Bool.false_and] at haccepts
          simpa [haccepts] using ih key
      | true =>
          cases heffects : tp.effects with
          | nil =>
              have hnone : tp.contents = [] := by simp [Tracepoint.contents, heffects]
              rw [hvalid, heffects] at haccepts
              cases hp : p tp <;> simpa [haccepts, hnone] using ih key
          | cons e es =>
              rw [hvalid, heffects] at haccepts
              rw [if_pos (by simpa using haccepts), List.filter_append, List.map_append,
                filter_actions, ih]
              cases hp : p tp
              · simp
              · simp [Tracepoint.map_content_actions]

/-! ### The invariant -/

/-- Triggers of one file, of each location one, with actions of that location. -/
structure PlacedIn (file : String) (us : List Trigger) : Prop where
  file : ∀ u ∈ us, u.location.fileName = file
  locations : (us.map Trigger.location).Nodup
  own : ∀ u ∈ us, ∀ a ∈ u.actions, a.tracepoint.location = u.location

/-- Every bucket holds triggers of its file. -/
structure Placed (bs : List (String × List Trigger)) : Prop where
  files : (bs.map Prod.fst).Nodup
  buckets : ∀ b ∈ bs, PlacedIn b.1 b.2

/-- The action is of a tracepoint at the location. -/
def isAt (l : Location) (a : Action) : Bool := a.tracepoint.location = l

section Add

variable {t : Trigger} {us : List Trigger} {bs : List (String × List Trigger)}

/-- A trigger joins the one of its location, or is put behind all others. -/
theorem map_location_addTo
    (t : Trigger) (us : List Trigger) :
    (addTo t us).map Trigger.location =
      if t.location ∈ us.map Trigger.location then us.map Trigger.location
      else us.map Trigger.location ++ [t.location] := by
  induction us with
  | nil => rfl
  | cons u us ih =>
      unfold addTo
      by_cases hu : u.location = t.location
      · simp [hu]
      · have hu' : t.location ≠ u.location := Ne.symm hu
        simp only [if_neg hu, List.map_cons, ih, List.mem_cons, hu', false_or]
        split <;> rfl

/-- Actions stay with the trigger of their location. -/
theorem own_addTo
    (hown : ∀ u ∈ us, ∀ a ∈ u.actions, a.tracepoint.location = u.location)
    (ht : ∀ a ∈ t.actions, a.tracepoint.location = t.location) :
    ∀ u ∈ addTo t us, ∀ a ∈ u.actions, a.tracepoint.location = u.location := by
  induction us with
  | nil => simpa [addTo] using ht
  | cons u us ih =>
      rw [List.forall_mem_cons] at hown
      unfold addTo
      split
      · next hu =>
          refine List.forall_mem_cons.mpr ⟨fun a ha => ?_, hown.2⟩
          rcases List.mem_append.mp ha with ha | ha
          · exact hown.1 a ha
          · exact (ht a ha).trans hu.symm
      · exact List.forall_mem_cons.mpr ⟨hown.1, ih hown.2⟩

/-- A trigger that joins leaves its bucket in order. -/
theorem PlacedIn.addTo
    (h : PlacedIn t.location.fileName us)
    (ht : ∀ a ∈ t.actions, a.tracepoint.location = t.location) :
    PlacedIn t.location.fileName (addTo t us) := by
  constructor
  · have hfiles : ∀ l ∈ (TriggerIndex.addTo t us).map Trigger.location,
        l.fileName = t.location.fileName := by
      rw [map_location_addTo]
      split
      · simpa using h.file
      · simpa [or_imp, forall_and] using h.file
    simpa using hfiles
  · rw [map_location_addTo]
    split
    · exact h.locations
    · next hfresh =>
        exact h.locations.append (List.nodup_singleton _) (List.disjoint_singleton.mpr hfresh)
  · exact own_addTo h.own ht

/-- A bucket is found under its file name, or put behind all others. -/
theorem map_fst_addIn
    (file : String) (t : Trigger) (bs : List (String × List Trigger)) :
    (addIn file t bs).map Prod.fst =
      if file ∈ bs.map Prod.fst then bs.map Prod.fst else bs.map Prod.fst ++ [file] := by
  induction bs with
  | nil => rfl
  | cons b bs ih =>
      unfold addIn
      by_cases hb : b.1 = file
      · simp [hb]
      · have hb' : file ≠ b.1 := Ne.symm hb
        simp only [if_neg hb, List.map_cons, ih, List.mem_cons, hb', false_or]
        split <;> rfl

/-- A trigger that is filed leaves all buckets in order. -/
theorem Placed.addIn
    (h : Placed bs)
    (ht : ∀ a ∈ t.actions, a.tracepoint.location = t.location) :
    Placed (addIn t.location.fileName t bs) := by
  constructor
  · rw [map_fst_addIn]
    split
    · exact h.files
    · next hfresh =>
        exact h.files.append (List.nodup_singleton _) (List.disjoint_singleton.mpr hfresh)
  · have hbuckets := h.buckets
    clear h
    induction bs with
    | nil =>
        have hnone : PlacedIn t.location.fileName [] := ⟨by simp, by simp, by simp⟩
        exact List.forall_mem_singleton.mpr (hnone.addTo ht)
    | cons b bs ih =>
        rw [List.forall_mem_cons] at hbuckets
        unfold TriggerIndex.addIn
        split
        · next hb =>
            exact List.forall_mem_cons.mpr ⟨PlacedIn.addTo (hb ▸ hbuckets.1) ht, hbuckets.2⟩
        · exact List.forall_mem_cons.mpr ⟨hbuckets.1, ih hbuckets.2⟩

end Add

/-! ### Actions of one location -/

section AtLocation

variable {t : Trigger} {us : List Trigger} {bs : List (String × List Trigger)} {l : Location}

/-- Actions of one location may pass by those of others. -/
theorem filter_isAt_append_comm
    {as others : List Action} {l' : Location}
    (has : ∀ a ∈ as, a.tracepoint.location = l')
    (hothers : ∀ a ∈ others, a.tracepoint.location ≠ l') :
    as.filter (isAt l) ++ others.filter (isAt l) =
      others.filter (isAt l) ++ as.filter (isAt l) := by
  by_cases hl : l' = l
  · have hnone : others.filter (isAt l) = [] := by
      refine List.filter_eq_nil_iff.mpr fun a ha => ?_
      rw [isAt, decide_eq_true_iff, ← hl]
      exact hothers a ha
    rw [hnone, List.nil_append, List.append_nil]
  · have hnone : as.filter (isAt l) = [] := by
      refine List.filter_eq_nil_iff.mpr fun a ha => ?_
      rw [isAt, decide_eq_true_iff, has a ha]
      exact hl
    rw [hnone, List.nil_append, List.append_nil]

/-- A merged trigger appends its actions to those of its location. -/
theorem filter_isAt_addTo
    (hlocations : (us.map Trigger.location).Nodup)
    (hown : ∀ u ∈ us, ∀ a ∈ u.actions, a.tracepoint.location = u.location)
    (ht : ∀ a ∈ t.actions, a.tracepoint.location = t.location) :
    ((addTo t us).flatMap Trigger.actions).filter (isAt l) =
      (us.flatMap Trigger.actions).filter (isAt l) ++ t.actions.filter (isAt l) := by
  induction us with
  | nil => simp [addTo]
  | cons u us ih =>
      rw [List.map_cons, List.nodup_cons] at hlocations
      rw [List.forall_mem_cons] at hown
      unfold addTo
      split
      · next hu =>
          have hothers : ∀ a ∈ us.flatMap Trigger.actions, a.tracepoint.location ≠ t.location := by
            intro a ha hat
            obtain ⟨v, hv, hav⟩ := List.mem_flatMap.mp ha
            rw [hown.2 v hv a hav, ← hu] at hat
            exact hlocations.1 (List.mem_map.mpr ⟨v, hv, hat⟩)
          simp only [List.flatMap_cons, List.filter_append, List.append_assoc,
            filter_isAt_append_comm ht hothers]
      · simp only [List.flatMap_cons, List.filter_append, List.append_assoc,
          ih hlocations.2 hown.2]

/-- At any location, the actions filed are put behind those already there. -/
theorem filter_isAt_addIn
    (h : Placed bs)
    (ht : ∀ a ∈ t.actions, a.tracepoint.location = t.location) :
    (((addIn t.location.fileName t bs).flatMap Prod.snd).flatMap Trigger.actions).filter (isAt l) =
      ((bs.flatMap Prod.snd).flatMap Trigger.actions).filter (isAt l) ++
        t.actions.filter (isAt l) := by
  obtain ⟨hfiles, hbuckets⟩ := h
  induction bs with
  | nil => simp [addIn]
  | cons b bs ih =>
      rw [List.map_cons, List.nodup_cons] at hfiles
      rw [List.forall_mem_cons] at hbuckets
      unfold addIn
      split
      · next hb =>
          have hothers : ∀ a ∈ (bs.flatMap Prod.snd).flatMap Trigger.actions,
              a.tracepoint.location ≠ t.location := by
            intro a ha hat
            obtain ⟨v, hv, hav⟩ := List.mem_flatMap.mp ha
            obtain ⟨b', hb', hvb⟩ := List.mem_flatMap.mp hv
            have hplaced := hbuckets.2 b' hb'
            have hfile := hplaced.file v hvb
            rw [← hplaced.own v hvb a hav, hat, ← hb] at hfile
            exact hfiles.1 (List.mem_map.mpr ⟨b', hb', hfile.symm⟩)
          simp only [List.flatMap_cons, List.flatMap_append, List.filter_append,
            filter_isAt_addTo hbuckets.1.locations hbuckets.1.own ht, List.append_assoc,
            filter_isAt_append_comm ht hothers]
      · simp only [List.flatMap_cons, List.flatMap_append, List.filter_append,
          List.append_assoc, ih hfiles.2 hbuckets.2]

end AtLocation

/-! ### All tracepoints -/

theorem placed_addAll
    {index : TriggerIndex}
    (h : Placed index.buckets)
    (key : Nat) (tps : List Tracepoint) :
    Placed (addAll index key tps).buckets := by
  induction tps generalizing index key with
  | nil => exact h
  | cons tp tps ih =>
      unfold addAll
      split
      · refine ih (h.addIn fun a ha => ?_) _
        rw [Tracepoint.tracepoint_of_mem_actions ha]
        rfl
      · exact ih h key

theorem placed_empty : Placed empty.buckets := ⟨List.nodup_nil, by simp [empty]⟩

theorem placed_build
    (key : Nat) (tps : List Tracepoint) :
    Placed (build key tps).buckets :=
  placed_addAll placed_empty key tps

/-- At any location, the actions of a set stand in the order of the set. -/
theorem filter_isAt_addAll
    {index : TriggerIndex}
    (h : Placed index.buckets)
    (key : Nat) (tps : List Tracepoint) (l : Location) :
    (addAll index key tps).actions.filter (isAt l) =
      index.actions.filter (isAt l) ++ (bound key tps).filter (isAt l) := by
  induction tps generalizing index key with
  | nil => simp [addAll, bound]
  | cons tp tps ih =>
      unfold addAll bound
      split
      · have hown : ∀ a ∈ (tp.trigger key).actions,
            a.tracepoint.location = (tp.trigger key).location := by
          intro a ha
          rw [Tracepoint.tracepoint_of_mem_actions ha]
          rfl
        have hinsert : (index.insert (tp.trigger key)).actions.filter (isAt l) =
            index.actions.filter (isAt l) ++ (tp.actions key).filter (isAt l) :=
          filter_isAt_addIn h hown
        refine (ih (h.addIn hown) _).trans ?_
        rw [List.filter_append, ← List.append_assoc]
        exact congrArg (· ++ _) hinsert
      · exact ih h key

theorem filter_isAt_build
    (key : Nat) (tps : List Tracepoint) (l : Location) :
    (build key tps).actions.filter (isAt l) = (bound key tps).filter (isAt l) :=
  filter_isAt_addAll placed_empty key tps l

/-! ### Looking up -/

section Matching

variable {event : TraceEvent} {file : String} {line : UInt32} {function : String}

/-- The location of the action's tracepoint is hit. -/
def isDue (event : TraceEvent) (file : String) (line : UInt32) (function : String)
    (a : Action) : Bool :=
  a.tracepoint.location.isHit event file line function

/-- The triggers that are hit hold the actions that are due. -/
theorem flatMap_filter_isHit
    {us : List Trigger}
    (hown : ∀ u ∈ us, ∀ a ∈ u.actions, a.tracepoint.location = u.location) :
    (us.filter fun u => u.location.isHit event file line function).flatMap Trigger.actions =
      (us.flatMap Trigger.actions).filter (isDue event file line function) := by
  induction us with
  | nil => rfl
  | cons u us ih =>
      rw [List.forall_mem_cons] at hown
      rw [List.flatMap_cons, List.filter_append, ← ih hown.2, List.filter_cons]
      split
      · next hhit =>
          have hall : u.actions.filter (isDue event file line function) = u.actions := by
            refine List.filter_eq_self.mpr fun a ha => ?_
            rwa [isDue, hown.1 a ha]
          rw [hall, List.flatMap_cons]
      · next hmiss =>
          have hnone : u.actions.filter (isDue event file line function) = [] := by
            refine List.filter_eq_nil_iff.mpr fun a ha => ?_
            rwa [isDue, hown.1 a ha]
          rw [hnone, List.nil_append]

/-- Nothing outside the bucket of the file is hit. -/
theorem filter_isDue_eq_nil
    {b : String × List Trigger}
    (h : PlacedIn b.1 b.2)
    (hne : b.1 ≠ Path.baseName file) :
    (b.2.flatMap Trigger.actions).filter (isDue event file line function) = [] := by
  refine List.filter_eq_nil_iff.mpr fun a ha hdue => ?_
  obtain ⟨u, hu, hau⟩ := List.mem_flatMap.mp ha
  rw [isDue, h.own u hu a hau] at hdue
  exact hne ((h.file u hu).symm.trans (Location.fileName_of_isHit hdue))

/-- No other bucket than that of the base name holds actions that are due. -/
theorem flatMap_filter_lookup
    {bs : List (String × List Trigger)}
    (h : Placed bs) :
    (((bs.lookup (Path.baseName file)).getD []).filter fun u =>
        u.location.isHit event file line function).flatMap Trigger.actions =
      ((bs.flatMap Prod.snd).flatMap Trigger.actions).filter
        (isDue event file line function) := by
  obtain ⟨hfiles, hbuckets⟩ := h
  induction bs with
  | nil => rfl
  | cons b bs ih =>
      rw [List.map_cons, List.nodup_cons] at hfiles
      rw [List.forall_mem_cons] at hbuckets
      rw [List.lookup_cons, List.flatMap_cons, List.flatMap_append, List.filter_append]
      split
      · next hb =>
          have hothers : ((bs.flatMap Prod.snd).flatMap Trigger.actions).filter
              (isDue event file line function) = [] := by
            rw [List.flatMap_assoc, List.filter_flatMap, List.flatMap_eq_nil_iff]
            intro b' hb'
            refine filter_isDue_eq_nil (hbuckets.2 b' hb') fun hsame => hfiles.1 ?_
            rw [← beq_iff_eq.mp hb, ← hsame]
            exact List.mem_map_of_mem hb'
          rw [hothers, List.append_nil]
          exact flatMap_filter_isHit hbuckets.1.own
      · next hb =>
          rw [filter_isDue_eq_nil hbuckets.1 fun hsame => beq_eq_false_iff_ne.mp hb hsame.symm,
            List.nil_append]
          exact ih hfiles.2 hbuckets.2

/-- The actions matched are those of the index that are due. -/
theorem flatMap_matching
    {index : TriggerIndex}
    (h : Placed index.buckets) :
    (index.matching event file line function).flatMap Trigger.actions =
      index.actions.filter (isDue event file line function) :=
  flatMap_filter_lookup h

theorem exists_mem_bound_of_accepts
    {tps : List Tracepoint} {tp : Tracepoint}
    (htp : tp ∈ tps)
    (haccepts : accepts tp = true)
    (key : Nat) :
    ∃ a ∈ bound key tps, a.tracepoint = tp := by
  rw [accepts_eq, Bool.and_eq_true] at haccepts
  obtain ⟨c, hc⟩ : ∃ c, c ∈ tp.contents := by
    refine List.exists_mem_of_ne_nil _ fun hnone => ?_
    rw [Tracepoint.contents, List.map_eq_nil_iff] at hnone
    simp [hnone] at haccepts
  have hmem : c ∈ (tps.filter fun other => other.isValid && decide (other = tp)).flatMap
      Tracepoint.contents :=
    List.mem_flatMap.mpr ⟨tp, by simp [htp, haccepts.1], hc⟩
  rw [← map_content_filter_bound key] at hmem
  obtain ⟨a, ha, -⟩ := List.mem_map.mp hmem
  rw [List.mem_filter, decide_eq_true_iff] at ha
  exact ⟨a, ha⟩

/-- Without a bucket for the file, no tracepoint that takes part is hit. -/
theorem isHit_eq_false_of_hasFile
    {key : Nat} {tps : List Tracepoint} {tp : Tracepoint}
    (hfile : (build key tps).hasFile file = false)
    (htp : tp ∈ tps)
    (haccepts : accepts tp = true) :
    tp.location.isHit event file line function = false := by
  rw [← Bool.not_eq_true]
  intro hhit
  obtain ⟨a, ha, rfl⟩ := exists_mem_bound_of_accepts htp haccepts key
  have hdue : a ∈ (build key tps).actions.filter (isDue event file line function) :=
    List.mem_filter.mpr ⟨(perm_actions_build key tps).mem_iff.mpr ha, hhit⟩
  rw [← flatMap_matching (placed_build key tps)] at hdue
  obtain ⟨u, hu, -⟩ := List.mem_flatMap.mp hdue
  have hfound := hasFile_of_matching (List.ne_nil_of_mem hu)
  rw [hfile] at hfound
  cases hfound

end Matching

/-! ### Main result -/

/-- What an event matches in a new index are the actions of the accepted tracepoints whose
location it hits, each once, in the order of the set at each location. The quick test of a file
never misses one of them. -/
theorem matching_build
    (key : Nat) (tps : List Tracepoint) (event : TraceEvent) (file : String) (line : UInt32)
    (function : String) :
    let found := ((build key tps).matching event file line function).flatMap Trigger.actions
    let due := tps.filter fun tp =>
      tp.isValid && tp.location.isHit event file line function
    (found.map Action.content).Perm (due.flatMap Tracepoint.contents) ∧
      (found.map Action.key).Nodup ∧
      (∀ l : Location,
        (found.filter (isAt l)).map Action.content =
          (due.filter fun tp => tp.location = l).flatMap Tracepoint.contents) ∧
      ((build key tps).hasFile file = false →
        ∀ tp ∈ tps, accepts tp = true → tp.location.isHit event file line function = false) := by
  intro found due
  have hfound : found = (build key tps).actions.filter (isDue event file line function) :=
    flatMap_matching (placed_build key tps)
  refine ⟨?_, ?_, ?_, ?_⟩
  · rw [hfound]
    refine (((perm_actions_build key tps).filter _).map _).trans (.of_eq ?_)
    exact map_content_filter_bound key tps fun tp => tp.location.isHit event file line function
  · rw [hfound]
    exact (nodup_keys_build key tps).sublist (List.filter_sublist.map _)
  · intro l
    have hat : found.filter (isAt l) = (bound key tps).filter fun a =>
        a.tracepoint.location.isHit event file line function && (a.tracepoint.location = l) := by
      rw [hfound, List.filter_comm, filter_isAt_build, List.filter_filter]
      rfl
    have hdue : (due.filter fun tp => tp.location = l) = tps.filter fun tp =>
        tp.isValid && (tp.location.isHit event file line function && (tp.location = l)) := by
      rw [List.filter_filter]
      refine List.filter_congr fun tp _ => ?_
      rw [Bool.and_comm, Bool.and_assoc]
    rw [hat, hdue]
    exact map_content_filter_bound key tps fun tp =>
      tp.location.isHit event file line function && (tp.location = l)
  · exact fun hfile tp htp haccepts => isHit_eq_false_of_hasFile hfile htp haccepts

/-- A valid tracepoint that asks for nothing. -/
def inert : Tracepoint := ⟨"tp", "a.py", 3, .ofList [("snapshot", "no_collect")], [], []⟩

/-- A valid tracepoint without any action is not found, though it is hit. -/
theorem matching_build_inert :
    inert.isValid = true ∧
      (build 0 [inert]).hasFile "a.py" = false ∧
      inert.location.isHit .line "a.py" 3 "handle" = true := by
  decide +kernel

end TriggerIndex
end LiveProbe
