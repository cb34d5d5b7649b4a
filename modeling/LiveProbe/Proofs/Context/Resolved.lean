import Mathlib
import LiveProbe.Proofs.Context.Delivery
import LiveProbe.Proofs.Context.Processing

/-!
# Snapshots that stand on their own

Every reference of a delivered snapshot leads into the lookup table that is
delivered with it.

**Run.**  A context begins, actions are processed in any number of calls, between
which values may change, and the context is closed.

**Results.**
* `isResolved_finishedResults`: a snapshot whose references the table knows is
  resolved once it is finished.
* `refers_processCalls`: the table knows all references of a context, however often
  actions were processed.
* `close_resolves`: every snapshot that a context hands to the push service is
  resolved.

**Imports.**  The closed run at the end is evaluated by equations, also of functions of the
library.  Those of `StateT.pure` and `StateT.set` would be generated here, under the names of
the library, if it were not imported whole.
-/

namespace LiveProbe

/-! ### Maps of lists -/

namespace SortedMap

variable {α : Type}

theorem mem_place_of_mem
    {key : String} {value : α} {es : List (String × α)} {other : String}
    (h : other ∈ es.map Prod.fst) :
    other ∈ (place key value es).map Prod.fst := by
  induction es with
  | nil => simp at h
  | cons d ds ih =>
      unfold place
      rw [List.map_cons, List.mem_cons] at h
      split
      · rw [List.map_cons, List.mem_cons, List.map_cons, List.mem_cons]
        exact Or.inr h
      · split
        · next heq =>
            rw [List.map_cons, List.mem_cons, heq]
            exact h
        · rw [List.map_cons, List.mem_cons]
          exact h.imp_right ih

theorem mem_keys_insert_self
    (m : SortedMap α) (key : String) (value : α) :
    key ∈ (m.insert key value).keys := by
  have hget := lookup_place_self key value m.entries
  obtain ⟨_, _, hsplit, _⟩ := List.lookup_eq_some_iff.1 hget
  simp [keys, insert, hsplit]

theorem mem_keys_ofList
    {es : List (String × α)} {key : String}
    (h : key ∈ es.map Prod.fst) :
    key ∈ (ofList es).keys := by
  have hfold : ∀ (es : List (String × α)) (m : SortedMap α),
      key ∈ m.keys ∨ key ∈ es.map Prod.fst →
      key ∈ (es.foldl (fun m e => m.insert e.1 e.2) m).keys := by
    intro es
    induction es with
    | nil => exact fun m hm => hm.resolve_right (by simp)
    | cons e es ih =>
        rintro m (hold | hnew)
        · exact ih _ (Or.inl (mem_place_of_mem hold))
        · rcases List.mem_cons.1 hnew with rfl | hlater
          · exact ih _ (Or.inl (mem_keys_insert_self m _ _))
          · exact ih _ (Or.inr hlater)
  exact hfold es empty (Or.inr h)

theorem mem_of_mem_ofList
    {es : List (String × α)} {e : String × α}
    (h : e ∈ (ofList es).entries) :
    e ∈ es := by
  have hfold : ∀ (es : List (String × α)) (m : SortedMap α),
      e ∈ (es.foldl (fun m e => m.insert e.1 e.2) m).entries → e ∈ m.entries ∨ e ∈ es := by
    intro es
    induction es with
    | nil => exact fun m hm => Or.inl hm
    | cons d ds ih =>
        intro m hm
        rcases ih _ hm with hold | hnew
        · rcases mem_place hold with rfl | hold
          · exact Or.inr List.mem_cons_self
          · exact Or.inl hold
        · exact Or.inr (List.mem_cons_of_mem d hnew)
  exact (hfold es empty h).resolve_left (by simp [empty])

theorem isSome_get?
    {m : SortedMap α} {key : String}
    (h : key ∈ m.keys) :
    (m.get? key).isSome = true := by
  unfold get?
  unfold keys at h
  generalize m.entries = es at h
  induction es with
  | nil => simp at h
  | cons e es ih =>
      obtain ⟨name, value⟩ := e
      by_cases hkey : key = name
      · rw [hkey, List.lookup_cons_self]
        rfl
      · rw [lookup_cons_of_ne es hkey]
        exact ih ((List.mem_cons.1 h).resolve_left hkey)

end SortedMap

/-! ### Finished snapshots -/

namespace Snapshot

/-- Every reference leads to an entry of the lookup table. -/
def IsResolved (s : Snapshot) : Prop :=
  s.unresolved = [] ∧ ∀ r ∈ s.references, r.id ∈ s.lookup.keys

/-- A snapshot is resolved if its lookup has all ids that it mentions. -/
theorem isResolved_of_references
    {s : Snapshot}
    (h : ∀ r ∈ s.references, r.id ∈ s.lookup.keys) :
    s.IsResolved := by
  refine ⟨?_, h⟩
  have hnone : s.references.filter (fun r => (s.lookup.get? r.id).isNone) = [] := by
    rw [List.filter_eq_nil_iff]
    intro r hr
    rw [Option.isNone_iff_eq_none, ← ne_eq, ← Option.isSome_iff_ne_none]
    exact SortedMap.isSome_get? (h r hr)
  rw [unresolved, hnone]
  rfl

/-- A finished snapshot mentions its roots, those of what is attached, and the children in the
lookup. -/
theorem references_finished
    (s : Snapshot) (messages : List (String × String)) (attached : List (String × WatchResult))
    (lookup : SortedMap Variable) (now : Nat)
    {r : VariableId}
    (hr : r ∈ (s.finished messages attached lookup now).references) :
    r ∈ s.roots ∨ r ∈ attached.flatMap (fun a => a.2.roots) ∨
      ∃ e ∈ lookup.entries, r ∈ e.2.children := by
  have hcomplete : ∀ (s : Snapshot) (now : Nat), (s.complete now).references = s.references := by
    intro s now
    unfold complete
    split <;> rfl
  have hmessage : ∀ message, (s.withMessage message).frames = s.frames ∧
      (s.withMessage message).watches = s.watches := by
    intro message
    cases message <;> exact ⟨rfl, rfl⟩
  rw [finished, hcomplete] at hr
  simp only [references, (hmessage _).1, (hmessage _).2, List.mem_append, List.filterMap_append,
    List.mem_filterMap, List.mem_flatMap, List.mem_map, List.mem_filter] at hr
  rcases hr with (hframe | ⟨w, hw, hvalue⟩ | ⟨w, ⟨a, ⟨ha, _⟩, rfl⟩, hvalue⟩) | ⟨e, he, hchild⟩
  · exact Or.inl (List.mem_append_left _ (List.mem_flatMap.2 hframe))
  · exact Or.inl (List.mem_append_right _
      (List.mem_flatMap.2 ⟨w, hw, by simp [WatchResult.roots, hvalue]⟩))
  · exact Or.inr (Or.inl (List.mem_flatMap.2 ⟨a, ha, by simp [WatchResult.roots, hvalue]⟩))
  · exact Or.inr (Or.inr ⟨e, he, by simpa using hchild⟩)

end Snapshot

namespace Firing

/-- With the table at the end of the context, its snapshots are resolved. -/
theorem isResolved_finishedResults
    {f : Firing}
    (hf : f.Refers [])
    (now : Nat)
    {snapshot : Snapshot}
    (h : .snapshot snapshot ∈ finishedResults f.context now) :
    snapshot.IsResolved := by
  obtain ⟨r, hr, hfinished⟩ := List.mem_map.1 h
  cases r with
  | snapshot s =>
      rw [ActionResult.snapshot.injEq] at hfinished
      subst hfinished
      have hlookup : ∀ id, f.context.capture.table.Knows id →
          id ∈ (SortedMap.ofList f.context.capture.table.lookup).keys := fun id hid =>
        SortedMap.mem_keys_ofList (VariableTable.mem_keys_lookup_iff.2 hid)
      have htable : ∀ m a l n, (s.finished m a l n).lookup = l := by
        intro m a l n
        unfold Snapshot.finished Snapshot.complete
        dsimp only
        split <;> rfl
      refine Snapshot.isResolved_of_references fun v hv => ?_
      rw [htable]
      refine hlookup _ ?_
      rcases Snapshot.references_finished s _ _ _ _ hv with hroot | hattached | ⟨e, he, hchild⟩
      · refine hf.roots v (List.mem_append_left _ (List.mem_append_left _ ?_))
        exact List.mem_append_right _ (List.mem_flatMap.2 ⟨_, hr, hroot⟩)
      · exact hf.roots v (List.mem_append_left _ (List.mem_append_right _ hattached))
      · obtain ⟨number, hrecord, _⟩ :=
          VariableTable.mem_lookup_iff.1 (SortedMap.mem_of_mem_ofList he)
        exact hf.closed number e.2 hrecord v hchild
  | log tracepoint message => cases hfinished
  | metric tracepoint => cases hfinished
  | span tracepoint handles location => cases hfinished

end Firing

/-! ### Runs -/

namespace Firing

/-- Calls for processing, with the values as they are at the time of each. -/
def processCalls (c : Collaborators) : List (Heap × List Action) → Firing → Firing
  | [], f => f
  | (heap, actions) :: rest, f =>
      processCalls c rest ({ f with agent := { f.agent with heap := heap } }.process c actions).2

theorem refers_begin?
    {c : Collaborators} {event : TraceEvent} {frame : HostFrame} {actions : List Action}
    {s : AgentState} {f : Firing}
    (hf : begin? c event frame actions s = some f) :
    f.Refers [] := by
  simp only [begin?, Option.map_eq_some_iff] at hf
  obtain ⟨bindings, _, rfl⟩ := hf
  exact Captured.isSound_begin

/-- However often actions were processed, the table knows all references of the context, and
nothing was handed over yet. -/
theorem refers_processCalls
    (c : Collaborators) (calls : List (Heap × List Action))
    {f : Firing}
    (hf : f.Refers []) :
    (f.processCalls c calls).Refers [] ∧
      (f.processCalls c calls).agent.handed = f.agent.handed := by
  induction calls generalizing f with
  | nil =>
      exact ⟨hf, rfl⟩
  | cons call rest ih =>
      obtain ⟨heap, actions⟩ := call
      have hkeeps := keeps_process c actions { f with agent := { f.agent with heap := heap } }
      have hprocessed := refers_process c actions
        (f := { f with agent := { f.agent with heap := heap } }) hf
      obtain ⟨hrefers, hhanded⟩ := ih hprocessed
      refine ⟨hrefers, hhanded.trans ?_⟩
      simp only [AgentState.handed, hkeeps.snapshots, hkeeps.pool]

/-- Every snapshot that the close of a context hands to the push service is resolved within its
own lookup, whatever values, panics or exhausted bounds there were on the way. -/
theorem close_resolves
    {c : Collaborators} {event : TraceEvent} {frame : HostFrame} {actions : List Action}
    {s : AgentState} {f : Firing}
    (hbegin : begin? c event frame actions s = some f)
    (calls : List (Heap × List Action)) :
    let last := f.processCalls c calls
    (∀ now, ∀ snapshot, .snapshot snapshot ∈ finishedResults last.context now →
      snapshot.IsResolved) ∧
      ∀ snapshot ∈ (last.close c AgentState.deliverInside).agent.handed,
        snapshot ∈ s.handed ∨ snapshot.IsResolved := by
  intro last
  have hbegun := delivers_begin? hbegin
  obtain ⟨hlast, hhanded⟩ := refers_processCalls c calls (refers_begin? hbegin)
  have hfinished : ∀ now, ∀ snapshot, .snapshot snapshot ∈ finishedResults last.context now →
      snapshot.IsResolved := fun now _ => isResolved_finishedResults hlast now
  refine ⟨hfinished, fun snapshot hsnapshot => ?_⟩
  obtain ⟨now, hclose⟩ := delivers_close c last
  rcases hclose.handed snapshot hsnapshot with hold | hnew
  · rw [hhanded] at hold
    rcases hbegun.handed snapshot hold with hbefore | hnone
    · exact Or.inl hbefore
    · cases hnone
  · obtain ⟨r, hr, hrsnapshot⟩ := List.mem_flatMap.1 hnew
    cases r with
    | snapshot s =>
        rw [List.mem_singleton.1 hrsnapshot]
        exact Or.inr (hfinished now s hr)
    | log tracepoint message => cases hrsnapshot
    | metric tracepoint => cases hrsnapshot
    | span tracepoint handles location => cases hrsnapshot

/-- A list (1) that contains itself, under two names. -/
def cyclicHeap : Heap := ⟨#[.none, .list [1, 2], .int 7]⟩

/-- A frame that knows the list under both names. -/
def cyclicFrame : HostFrame :=
  ⟨⟨"/srv/app/handler.py", "handle", 3, 1, some [("a", 1), ("b", 1)], none, false, none⟩, []⟩

/-- A snapshot is collected, with one of the names as a watch. -/
def cyclicActions : List Action :=
  Tracepoint.actions ⟨"tp", "handler.py", 3, .empty, ["a"], []⟩ 0

theorem close_resolves_cyclic :
    ∃ f : Firing, begin? plainCollaborators .line cyclicFrame cyclicActions
        (.initial cyclicHeap (.ofSize 1 1)) = some f ∧
      let last := f.processCalls plainCollaborators [(cyclicHeap, cyclicActions)]
      (last.context.results.flatMap ActionResult.roots).map VariableId.id = ["1", "1", "1"] ∧
        (∀ now, ∀ snapshot, .snapshot snapshot ∈ finishedResults last.context now →
          snapshot.IsResolved) ∧
        ∀ snapshot ∈ (last.close plainCollaborators AgentState.deliverInside).agent.handed,
          snapshot ∈ (AgentState.initial cyclicHeap (.ofSize 1 1)).handed ∨
            snapshot.IsResolved := by
  have hbegin : begin? plainCollaborators .line cyclicFrame cyclicActions
      (.initial cyclicHeap (.ofSize 1 1)) = some _ := rfl
  refine ⟨_, hbegin, ?_, close_resolves hbegin [(cyclicHeap, cyclicActions)]⟩
  cbv

end Firing
end LiveProbe
