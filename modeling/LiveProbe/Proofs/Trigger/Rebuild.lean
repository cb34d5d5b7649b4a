import Mathlib.Data.List.Nodup
import LiveProbe.Proofs.Trigger.Names

/-!
# Rebuilding the index

Which actions an index holds, under which keys their firings are counted, and what a
rebuilt index takes over.

**Algorithm.**  An index holds the actions of the accepted tracepoints, merged into
triggers.  Apart from their order these are the actions that the tracepoints have in
turn, with consecutive keys (`TriggerIndex.bound`).  A rebuilt index has keys that
were never in use; under each of them it enters what the predecessor counted.

**Results.**
* `perm_actions_build`: no action is lost, doubled or made up.
* `key_injOn_build`, `id_injOn_build`: keys and ids tell the actions of an index
  apart.
* `read_rebuild_of_mem`: an action begins with the statistics of its predecessor.
* `predecessor?_eq_some`, `predecessor?_eq_none`: the predecessor is the action of the
  same id and tracepoint.
-/

namespace LiveProbe
namespace TriggerIndex

/-- The actions of accepted tracepoints in their order, with consecutive keys. -/
def bound (key : Nat) : List Tracepoint → List Action
  | [] => []
  | tp :: tps =>
      if accepts tp then tp.actions key ++ bound (key + tp.effects.length) tps
      else bound key tps

/-! ### Actions of an index -/

section Perm

/-- Filing a trigger adds its actions and loses none. -/
theorem perm_addTo
    (t : Trigger) (us : List Trigger) :
    ((addTo t us).flatMap Trigger.actions).Perm
      (us.flatMap Trigger.actions ++ t.actions) := by
  induction us with
  | nil =>
      simp [addTo]
  | cons u us ih =>
      unfold addTo
      split
      · rw [List.flatMap_cons, List.flatMap_cons, List.append_assoc, List.append_assoc]
        exact List.Perm.append_left _ List.perm_append_comm
      · rw [List.flatMap_cons, List.flatMap_cons, List.append_assoc]
        exact List.Perm.append_left _ ih

theorem perm_addIn
    (file : String) (t : Trigger) (bs : List (String × List Trigger)) :
    (((addIn file t bs).flatMap Prod.snd).flatMap Trigger.actions).Perm
      ((bs.flatMap Prod.snd).flatMap Trigger.actions ++ t.actions) := by
  induction bs with
  | nil =>
      simp [addIn]
  | cons b bs ih =>
      unfold addIn
      split
      · simp only [List.flatMap_cons, List.flatMap_append, List.append_assoc]
        refine ((perm_addTo t b.2).append_right _).trans ?_
        rw [List.append_assoc]
        exact List.Perm.append_left _ List.perm_append_comm
      · simp only [List.flatMap_cons, List.flatMap_append, List.append_assoc]
        exact List.Perm.append_left _ ih

theorem perm_actions_insert
    (index : TriggerIndex) (t : Trigger) :
    (index.insert t).actions.Perm (index.actions ++ t.actions) :=
  perm_addIn t.location.fileName t index.buckets

/-- Filing a set adds the actions of its accepted tracepoints. -/
theorem perm_actions_addAll
    (index : TriggerIndex) (key : Nat) (tps : List Tracepoint) :
    (addAll index key tps).actions.Perm (index.actions ++ bound key tps) := by
  induction tps generalizing index key with
  | nil =>
      simp [addAll, bound]
  | cons tp tps ih =>
      unfold addAll bound
      split
      · refine (ih _ _).trans ?_
        rw [← List.append_assoc]
        exact (perm_actions_insert index (tp.trigger key)).append_right _
      · exact ih index key

theorem perm_actions_build
    (key : Nat) (tps : List Tracepoint) :
    (build key tps).actions.Perm (bound key tps) :=
  perm_actions_addAll empty key tps

end Perm

/-! ### Keys -/

/-- The keys of a tracepoint's actions follow one another. -/
theorem map_key_actions
    (tp : Tracepoint) (key : Nat) :
    (tp.actions key).map Action.key = List.range' key tp.effects.length := by
  unfold Tracepoint.actions
  rw [List.map_map]
  refine List.ext_getElem (by simp) fun i _ _ => ?_
  simp [Action.ofTracepoint]

theorem map_key_bound
    (key : Nat) (tps : List Tracepoint) :
    (bound key tps).map Action.key = List.range' key (bound key tps).length := by
  induction tps generalizing key with
  | nil =>
      rfl
  | cons tp tps ih =>
      unfold bound
      split
      · have hlength : (tp.actions key).length = tp.effects.length := by
          simp [Tracepoint.actions]
        rw [List.map_append, map_key_actions, ih, List.length_append, hlength]
        exact List.range'_append_1
      · exact ih key

theorem nodup_keys_build
    (key : Nat) (tps : List Tracepoint) :
    ((build key tps).actions.map Action.key).Nodup := by
  have hperm := (perm_actions_build key tps).map Action.key
  rw [hperm.nodup_iff, map_key_bound]
  exact List.nodup_range'

theorem key_injOn_build
    {key : Nat} {tps : List Tracepoint} {a b : Action}
    (ha : a ∈ (build key tps).actions)
    (hb : b ∈ (build key tps).actions)
    (h : a.key = b.key) :
    a = b :=
  List.inj_on_of_nodup_map (nodup_keys_build key tps) ha hb h

/-- The keys of an index are the ones next to be given out. -/
theorem key_mem_build
    {key : Nat} {tps : List Tracepoint} {a : Action}
    (ha : a ∈ (build key tps).actions) :
    key ≤ a.key ∧ a.key < key + (build key tps).actions.length := by
  have hperm := perm_actions_build key tps
  have hkey : a.key ∈ (bound key tps).map Action.key :=
    List.mem_map_of_mem (hperm.mem_iff.1 ha)
  rw [map_key_bound, List.mem_range'_1] at hkey
  rw [hperm.length_eq]
  exact hkey

/-! ### Ids -/

theorem exists_of_mem_bound
    {key : Nat} {tps : List Tracepoint} {a : Action}
    (ha : a ∈ bound key tps) :
    ∃ tp ∈ tps, accepts tp = true ∧ ∃ first, a ∈ tp.actions first := by
  induction tps generalizing key with
  | nil =>
      cases ha
  | cons tp tps ih =>
      unfold bound at ha
      split at ha
      · next haccepts =>
          rcases List.mem_append.1 ha with hhead | htail
          · exact ⟨tp, List.mem_cons_self, haccepts, key, hhead⟩
          · obtain ⟨other, hother, hrest⟩ := ih htail
            exact ⟨other, List.mem_cons_of_mem tp hother, hrest⟩
      · obtain ⟨other, hother, hrest⟩ := ih ha
        exact ⟨other, List.mem_cons_of_mem tp hother, hrest⟩

/-- Each effect of an accepted tracepoint has an action. -/
theorem exists_mem_bound
    {tps : List Tracepoint} {tp : Tracepoint} {n : EffectName}
    (htp : tp ∈ tps)
    (haccepts : accepts tp = true)
    (hn : n ∈ tp.effectNames)
    (key : Nat) :
    ∃ a ∈ bound key tps, a.id = tp.id ++ n.text ∧ a.tracepoint = tp := by
  induction tps generalizing key with
  | nil =>
      cases htp
  | cons other tps ih =>
      unfold bound
      rcases List.mem_cons.1 htp with rfl | hlater
      · rw [if_pos haccepts]
        obtain ⟨a, ha, hid⟩ := Tracepoint.exists_mem_actions hn key
        exact ⟨a, List.mem_append_left _ ha, hid⟩
      · split
        · obtain ⟨a, ha, hid⟩ := ih hlater (key + other.effects.length)
          exact ⟨a, List.mem_append_right _ ha, hid⟩
        · exact ih hlater key

/-- Where the ids of tracepoints differ, so do those of all actions. -/
theorem id_injOn_bound
    {key : Nat} {tps : List Tracepoint} {a b : Action}
    (hdistinct : (tps.map Tracepoint.id).Nodup)
    (ha : a ∈ bound key tps)
    (hb : b ∈ bound key tps)
    (h : a.id = b.id) :
    a = b := by
  induction tps generalizing key with
  | nil =>
      cases ha
  | cons tp tps ih =>
      rw [List.map_cons, List.nodup_cons] at hdistinct
      obtain ⟨hfresh, hrest⟩ := hdistinct
      have hapart :
          ∀ x ∈ tp.actions key, ∀ y ∈ bound (key + tp.effects.length) tps, x.id ≠ y.id := by
        intro x hx y hy hid
        obtain ⟨_, _, m, _, hm⟩ := Tracepoint.of_mem_actions hx
        obtain ⟨other, hother, _, first, hfirst⟩ := exists_of_mem_bound hy
        obtain ⟨_, _, n, _, hn⟩ := Tracepoint.of_mem_actions hfirst
        rw [hm, hn] at hid
        refine hfresh ?_
        rw [(EffectName.append_text_injective hid).1]
        exact List.mem_map_of_mem hother
      unfold bound at ha hb
      split at ha
      · next haccepts =>
          rw [if_pos haccepts] at hb
          rcases List.mem_append.1 ha with hahead | hatail
          · rcases List.mem_append.1 hb with hbhead | hbtail
            · exact Tracepoint.id_injOn_actions hahead hbhead h
            · exact absurd h (hapart a hahead b hbtail)
          · rcases List.mem_append.1 hb with hbhead | hbtail
            · exact absurd h.symm (hapart b hbhead a hatail)
            · exact ih hrest hatail hbtail
      · next hrefuses =>
          rw [if_neg hrefuses] at hb
          exact ih hrest ha hb

/-- Where tracepoints have distinct identifiers, so have the actions of an index. -/
theorem id_injOn_build
    {key : Nat} {tps : List Tracepoint} {a b : Action}
    (hdistinct : (tps.map Tracepoint.id).Nodup)
    (ha : a ∈ (build key tps).actions)
    (hb : b ∈ (build key tps).actions)
    (h : a.id = b.id) :
    a = b := by
  have hperm := perm_actions_build key tps
  exact id_injOn_bound hdistinct (hperm.mem_iff.1 ha) (hperm.mem_iff.1 hb) h

/-! ### Predecessors -/

section Predecessor

variable {previous : TriggerIndex} {a old : Action}

/-- A predecessor has the identifier and the tracepoint of its successor. -/
theorem of_predecessor?_eq_some
    (h : previous.predecessor? a = some old) :
    old ∈ previous.actions ∧ old.id = a.id ∧ old.tracepoint = a.tracepoint := by
  unfold predecessor? at h
  split at h
  · next found hfind =>
      split at h
      · next htp =>
          obtain rfl := Option.some.inj h
          have hid := List.find?_some hfind
          have hmem := List.mem_of_find?_eq_some hfind
          exact ⟨List.mem_reverse.1 hmem, by simpa using hid, htp⟩
      · cases h
  · cases h

/-- Where identifiers are distinct, an action with both is the predecessor. -/
theorem predecessor?_eq_some
    (hids : ∀ x ∈ previous.actions, ∀ y ∈ previous.actions, x.id = y.id → x = y)
    (hold : old ∈ previous.actions)
    (hid : old.id = a.id)
    (htp : old.tracepoint = a.tracepoint) :
    previous.predecessor? a = some old := by
  unfold predecessor?
  rcases hfind : previous.actions.reverse.find? (fun x => x.id == a.id) with _ | found
  · have hnone := List.find?_eq_none.1 hfind old (List.mem_reverse.2 hold)
    exact absurd (beq_iff_eq.2 hid) hnone
  · have hfound : found.id = a.id := by simpa using List.find?_some hfind
    have hmem := List.mem_reverse.1 (List.mem_of_find?_eq_some hfind)
    have hsame : found = old := hids found hmem old hold (hfound.trans hid.symm)
    subst hsame
    rw [hfind]
    exact if_pos htp

theorem predecessor?_eq_none
    (h : ∀ x ∈ previous.actions, ¬(x.id = a.id ∧ x.tracepoint = a.tracepoint)) :
    previous.predecessor? a = none := by
  rcases hold : previous.predecessor? a with _ | old
  · rfl
  · obtain ⟨hmem, hid⟩ := of_predecessor?_eq_some hold
    exact absurd hid (h old hmem)

end Predecessor

/-! ### Statistics -/

section Ledger

variable {previous : TriggerIndex} {ledger : FireLedger}

theorem next_inherit
    (previous : TriggerIndex) (ledger : FireLedger) (actions : List Action) :
    (previous.inherit ledger actions).next = ledger.next := by
  unfold inherit
  induction actions generalizing ledger with
  | nil =>
      rfl
  | cons a rest ih =>
      rw [List.foldl_cons, ih]
      split
      · simp [FireLedger.write, FireLedger.next]
      · rfl

/-- Only the statistics of the new actions are written. -/
theorem read_inherit_of_notMem
    {actions : List Action} {key : Nat}
    (hkey : ∀ a ∈ actions, a.key ≠ key) :
    (previous.inherit ledger actions).read key = ledger.read key := by
  unfold inherit
  induction actions generalizing ledger with
  | nil =>
      rfl
  | cons a rest ih =>
      rw [List.foldl_cons, ih fun b hb => hkey b (List.mem_cons_of_mem a hb)]
      split
      · exact FireLedger.read_write_of_ne _ _ (hkey a List.mem_cons_self)
      · rfl

/-- Keys of predecessors lie below those that are written, so the order of the copies
does not matter. -/
theorem read_inherit_of_mem
    {actions : List Action} {base : Nat} {a : Action}
    (hnodup : (actions.map Action.key).Nodup)
    (hkeys : ∀ b ∈ actions, base ≤ b.key ∧ b.key < ledger.next)
    (hold : ∀ old ∈ previous.actions, old.key < base)
    (ha : a ∈ actions) :
    (previous.inherit ledger actions).read a.key =
      match previous.predecessor? a with
      | some old => ledger.read old.key
      | none => ledger.read a.key := by
  unfold inherit
  induction actions generalizing ledger with
  | nil =>
      cases ha
  | cons b rest ih =>
      rw [List.map_cons, List.nodup_cons] at hnodup
      obtain ⟨hfresh, hrest⟩ := hnodup
      have hbkey := hkeys b List.mem_cons_self
      rw [List.foldl_cons]
      rcases List.mem_cons.1 ha with rfl | hlater
      · have hlast :
            ∀ l : FireLedger, (previous.inherit l rest).read a.key = l.read a.key := by
          intro l
          refine read_inherit_of_notMem fun x hx hkey => hfresh ?_
          rw [← hkey]
          exact List.mem_map_of_mem hx
        refine (hlast _).trans ?_
        rcases previous.predecessor? a with _ | old
        · rfl
        · exact FireLedger.read_write_self _ _ hbkey.2
      · have hother : b.key ≠ a.key := by
          intro hkey
          refine hfresh ?_
          rw [hkey]
          exact List.mem_map_of_mem hlater
        rcases hb : previous.predecessor? b with _ | found
        · exact ih hrest (fun x hx => hkeys x (List.mem_cons_of_mem b hx)) hlater
        · rw [ih hrest (fun x hx => ?_) hlater]
          · rcases ha : previous.predecessor? a with _ | old
            · exact FireLedger.read_write_of_ne _ _ hother
            · have hbelow := hold old (of_predecessor?_eq_some ha).1
              exact FireLedger.read_write_of_ne _ _ (by omega)
          · have hx := hkeys x (List.mem_cons_of_mem b hx)
            simpa [FireLedger.write, FireLedger.next] using hx

theorem next_rebuild
    (ledger : FireLedger) (tps : List Tracepoint) (previous : TriggerIndex) :
    (rebuild ledger tps previous).2.next =
      ledger.next + (build ledger.next tps).actions.length := by
  unfold rebuild opened
  rw [next_inherit]
  simp [FireLedger.extend, FireLedger.next]

theorem read_of_next_le
    (ledger : FireLedger)
    {key : Nat}
    (hkey : ledger.next ≤ key) :
    ledger.read key = .zero := by
  unfold FireLedger.read
  rw [Array.getD_eq_getD_getElem?, Array.getElem?_eq_none hkey]
  rfl

/-- An action of the new index has the statistics of its predecessor, or none. -/
theorem read_rebuild_of_mem
    {tps : List Tracepoint} {a : Action}
    (hold : ∀ old ∈ previous.actions, old.key < ledger.next)
    (ha : a ∈ (build ledger.next tps).actions) :
    (rebuild ledger tps previous).2.read a.key =
      match previous.predecessor? a with
      | some old => ledger.read old.key
      | none => .zero := by
  have hextended :
      (ledger.extend (build ledger.next tps).actions.length).next =
        ledger.next + (build ledger.next tps).actions.length := by
    simp [FireLedger.extend, FireLedger.next]
  have hinherit :
      (rebuild ledger tps previous).2.read a.key = _ :=
    read_inherit_of_mem (nodup_keys_build ledger.next tps)
      (fun b hb => by rw [hextended]; exact key_mem_build hb) hold ha
  rw [hinherit]
  rcases previous.predecessor? a with _ | old
  · dsimp only
    rw [FireLedger.read_extend]
    exact read_of_next_le ledger (key_mem_build ha).1
  · exact FireLedger.read_extend _ _ _

end Ledger

end TriggerIndex
end LiveProbe
