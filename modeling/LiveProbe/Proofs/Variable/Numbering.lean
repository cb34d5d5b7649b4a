import Mathlib.Data.Set.Function
import Std.Data.String.ToNat
import LiveProbe.Variable.Walk

/-!
# Numbering of a lookup table

What holds together in a lookup table: its numbers, its records and the
references between them.

**Invariants.**  A table is *grounded* if every number that a value has is that of a
record, which all operations on tables keep.  It is *numbered* if the value that has a
number is exactly the one whose identity the record of this number bears.  It is *closed*
if every reference of a record leads to a record, and closed from a record on if those of
later records do.

**Results.**
* `isNumbered_register`, `isNumbered_addChild`, `isNumbered_markTruncated` and
  their counterparts for `IsGrounded` and `IsClosedFrom`: all operations of a walk keep
  them.
* `bijOn_idFor?`: the map from identities to ids is a bijection from the recorded
  identities to the keys of the table.
* `keys_lookup`: the keys of the delivered table are the numbers from one on in
  decimal.
-/

namespace LiveProbe

theorem toString_nat_injective
    {m n : Nat}
    (h : toString m = toString n) :
    m = n :=
  Nat.repr_injective h

namespace VariableTable

/-- The record of a number. -/
def record? (t : VariableTable) (number : Nat) : Option Variable :=
  if number = 0 then none else t.records[number - 1]?

/-- The id under which a value was recorded. -/
def idFor? (t : VariableTable) (r : Ref) : Option String := (t.number? r).map idOf

/-- The identities on which the records were recognised. -/
def identities (t : VariableTable) : Set Ref :=
  {r | ∃ number v, t.record? number = some v ∧ v.hash = toString r}

/-- The id is that of a record. -/
def Knows (t : VariableTable) (id : String) : Prop :=
  ∃ number, 0 < number ∧ number ≤ t.size ∧ idOf number = id

/-- The value that has a number is the one whose identity its record bears, and
every record bears the identity of a value. -/
structure IsNumbered (t : VariableTable) : Prop where
  number?_iff : ∀ (r : Ref) (number : Nat),
    t.number? r = some number ↔ ∃ v, t.record? number = some v ∧ v.hash = toString r
  hash : ∀ (number : Nat) (v : Variable),
    t.record? number = some v → ∃ r : Ref, v.hash = toString r

/-- Every number that a value has is that of a record. -/
def IsGrounded (t : VariableTable) : Prop :=
  ∀ (r : Ref) (number : Nat), t.number? r = some number → t.Knows (idOf number)

/-- Every reference of a record leads to a record. -/
def IsClosed (t : VariableTable) : Prop :=
  ∀ (number : Nat) (v : Variable),
    t.record? number = some v → ∀ c ∈ v.children, t.Knows c.id

/-- Every reference of a record behind the first `count` leads to a record. -/
def IsClosedFrom (t : VariableTable) (count : Nat) : Prop :=
  ∀ (number : Nat) (v : Variable), count < number →
    t.record? number = some v → ∀ c ∈ v.children, t.Knows c.id

/-! ### Records and ids -/

theorem idOf_injective
    {m n : Nat}
    (h : idOf m = idOf n) :
    m = n :=
  toString_nat_injective h

theorem record?_eq_some_iff
    {t : VariableTable} {number : Nat} {v : Variable} :
    t.record? number = some v ↔ 0 < number ∧ t.records[number - 1]? = some v := by
  unfold record?
  split
  · next h => simp [h]
  · next h => exact ⟨fun hv => ⟨by omega, hv⟩, fun hv => hv.2⟩

/-- There is a record for every number up to the size. -/
theorem exists_record?
    {t : VariableTable} {number : Nat} :
    (∃ v, t.record? number = some v) ↔ 0 < number ∧ number ≤ t.size := by
  constructor
  · rintro ⟨v, hv⟩
    obtain ⟨hpos, hv⟩ := record?_eq_some_iff.1 hv
    obtain ⟨hlt, _⟩ := Array.getElem?_eq_some_iff.1 hv
    exact ⟨hpos, by unfold size; omega⟩
  · rintro ⟨hpos, hle⟩
    have hlt : number - 1 < t.records.size := by
      unfold size at hle
      omega
    exact ⟨t.records[number - 1], record?_eq_some_iff.2
      ⟨hpos, Array.getElem?_eq_some_iff.2 ⟨hlt, rfl⟩⟩⟩

theorem pos_of_record?
    {t : VariableTable} {number : Nat} {v : Variable}
    (h : t.record? number = some v) :
    0 < number :=
  (exists_record?.1 ⟨v, h⟩).1

theorem le_size_of_record?
    {t : VariableTable} {number : Nat} {v : Variable}
    (h : t.record? number = some v) :
    number ≤ t.size :=
  (exists_record?.1 ⟨v, h⟩).2

theorem Knows.mono
    {t u : VariableTable} {id : String}
    (h : t.Knows id)
    (hle : t.size ≤ u.size) :
    u.Knows id := by
  obtain ⟨number, hpos, hnumber, rfl⟩ := h
  exact ⟨number, hpos, by omega, rfl⟩

@[simp] theorem record?_empty
    (number : Nat) :
    empty.record? number = none := by
  simp [record?, empty]

@[simp] theorem number?_empty
    (r : Ref) :
    empty.number? r = none := by
  simp [number?, empty]

/-- Registering puts a record under the next number and keeps the others. -/
theorem record?_register
    (t : VariableTable) (r : Ref) (v : Variable) (number : Nat) :
    (t.register r v).record? number =
      if number = t.size + 1 then some v else t.record? number := by
  unfold record? register
  by_cases h0 : number = 0
  · subst h0
    simp
  · simp only [if_neg h0, Array.getElem?_push, size]
    by_cases hn : number = t.records.size + 1
    · rw [if_pos hn, if_pos (by omega)]
    · rw [if_neg hn, if_neg (by omega)]

theorem record?_modify
    (t : VariableTable)
    {target : Nat}
    (htarget : 0 < target)
    (f : Variable → Variable) (number : Nat) :
    (t.modify target f).record? number =
      if number = target then (t.record? number).map f else t.record? number := by
  unfold record? modify
  by_cases h0 : number = 0
  · rw [if_pos h0, if_neg (by omega), if_pos h0]
  · simp only [if_neg h0, Array.getElem?_modify]
    by_cases hn : number = target
    · rw [if_pos hn, if_pos (by omega)]
    · rw [if_neg hn, if_neg (by omega)]

theorem record?_modify_of_ne
    (t : VariableTable)
    {target number : Nat}
    (htarget : 0 < target)
    (f : Variable → Variable)
    (hne : number ≠ target) :
    (t.modify target f).record? number = t.record? number := by
  rw [record?_modify t htarget, if_neg hne]

@[simp] theorem number?_modify
    (t : VariableTable) (target : Nat) (f : Variable → Variable) (r : Ref) :
    (t.modify target f).number? r = t.number? r := rfl

/-- Registering numbers the value, and no other anew. -/
theorem number?_register
    (t : VariableTable) (r s : Ref) (v : Variable) :
    (t.register r v).number? s = if r = s then some (t.size + 1) else t.number? s := by
  simp [number?, register, next, size, Std.HashMap.getElem?_insert]

/-! ### Grounded tables -/

theorem isGrounded_empty : empty.IsGrounded := by
  intro r number hr
  simp at hr

theorem isGrounded_register
    {t : VariableTable}
    (h : t.IsGrounded)
    (r : Ref) (v : Variable) :
    (t.register r v).IsGrounded := by
  intro s number hs
  rw [number?_register] at hs
  split at hs
  · cases hs
    exact ⟨t.size + 1, Nat.succ_pos _, by simp, rfl⟩
  · exact (h s number hs).mono (by simp)

theorem isGrounded_modify
    {t : VariableTable}
    (h : t.IsGrounded)
    (target : Nat) (f : Variable → Variable) :
    (t.modify target f).IsGrounded :=
  fun r number hr => (h r number hr).mono (by simp)

/-! ### Numbered tables -/

theorem isNumbered_empty : empty.IsNumbered where
  number?_iff := by simp
  hash := by simp

/-- A value registered for the first time gets a number of its own. -/
theorem isNumbered_register
    {t : VariableTable}
    (h : t.IsNumbered)
    {r : Ref} {v : Variable}
    (hfresh : t.number? r = none)
    (hhash : v.hash = toString r) :
    (t.register r v).IsNumbered := by
  have hnone : t.record? (t.size + 1) = none := by
    rcases hrec : t.record? (t.size + 1) with _ | w
    · rfl
    · have := le_size_of_record? hrec
      omega
  refine ⟨fun s number => ?_, fun number w hw => ?_⟩
  · rw [number?_register, record?_register]
    by_cases hn : number = t.size + 1
    · rw [if_pos hn]
      by_cases hs : r = s
      · subst hs
        simp [hn, hhash]
      · rw [if_neg hs, h.number?_iff, hn, hnone]
        constructor
        · rintro ⟨w, hw, _⟩
          cases hw
        · rintro ⟨w, hw, hid⟩
          rw [← Option.some.inj hw, hhash] at hid
          exact absurd (toString_nat_injective hid) hs
    · rw [if_neg hn]
      by_cases hs : r = s
      · subst hs
        rw [if_pos rfl, ← h.number?_iff, hfresh]
        simp [Ne.symm hn]
      · rw [if_neg hs, h.number?_iff]
  · rw [record?_register] at hw
    split at hw
    · rw [← Option.some.inj hw]
      exact ⟨r, hhash⟩
    · exact h.hash number w hw

/-- A change of a record that leaves its identity alone keeps the numbering. -/
theorem isNumbered_modify
    {t : VariableTable}
    (h : t.IsNumbered)
    {target : Nat}
    (htarget : 0 < target)
    {f : Variable → Variable}
    (hf : ∀ v, (f v).hash = v.hash) :
    (t.modify target f).IsNumbered := by
  refine ⟨fun r number => ?_, fun number v hv => ?_⟩
  · rw [number?_modify, h.number?_iff, record?_modify t htarget]
    split
    · simp [hf]
    · rfl
  · rw [record?_modify t htarget] at hv
    split at hv
    · obtain ⟨w, hw, rfl⟩ := Option.map_eq_some_iff.1 hv
      rw [hf]
      exact h.hash number w hw
    · exact h.hash number v hv

theorem isNumbered_addChild
    {t : VariableTable}
    (h : t.IsNumbered)
    {parent : Nat}
    (hparent : 0 < parent)
    (child : VariableId) :
    (t.addChild parent child).IsNumbered :=
  isNumbered_modify h hparent fun _ => rfl

theorem isNumbered_markTruncated
    {t : VariableTable}
    (h : t.IsNumbered)
    {number : Nat}
    (hnumber : 0 < number) :
    (t.markTruncated number).IsNumbered :=
  isNumbered_modify h hnumber fun _ => rfl

/-- Where each number is that of one value, it has its record. -/
theorem IsNumbered.isGrounded
    {t : VariableTable}
    (h : t.IsNumbered) :
    t.IsGrounded := by
  intro r number hr
  obtain ⟨v, hv, _⟩ := (h.number?_iff r number).1 hr
  exact ⟨number, pos_of_record? hv, le_size_of_record? hv, rfl⟩

/-- A value has an identifier exactly if it was registered. -/
theorem isSome_idFor?_iff
    {t : VariableTable}
    (h : t.IsNumbered)
    (r : Ref) :
    (t.idFor? r).isSome ↔ r ∈ t.identities := by
  rw [idFor?, Option.isSome_map, Option.isSome_iff_exists]
  constructor
  · rintro ⟨number, hr⟩
    obtain ⟨v, hv, hid⟩ := (h.number?_iff r number).1 hr
    exact ⟨number, v, hv, hid⟩
  · rintro ⟨number, v, hv, hid⟩
    exact ⟨number, (h.number?_iff r number).2 ⟨v, hv, hid⟩⟩

/-- Recorded identities and keys correspond one to one. -/
theorem bijOn_idFor?
    {t : VariableTable}
    (h : t.IsNumbered) :
    Set.BijOn t.idFor? t.identities (some '' {id | t.Knows id}) := by
  refine ⟨?_, ?_, ?_⟩
  · rintro r ⟨number, v, hv, hid⟩
    have hr := (h.number?_iff r number).2 ⟨v, hv, hid⟩
    exact ⟨idOf number, h.isGrounded r number hr, by simp [idFor?, hr]⟩
  · rintro r ⟨number, v, hv, hid⟩ s ⟨other, w, hw, hid'⟩ heq
    have hr := (h.number?_iff r number).2 ⟨v, hv, hid⟩
    have hs := (h.number?_iff s other).2 ⟨w, hw, hid'⟩
    simp only [idFor?, hr, hs, Option.map_some, Option.some.injEq] at heq
    have hsame : number = other := idOf_injective heq
    subst hsame
    rw [hv] at hw
    rw [← Option.some.inj hw, hid] at hid'
    exact toString_nat_injective hid'
  · rintro _ ⟨_, ⟨number, hpos, hle, rfl⟩, rfl⟩
    obtain ⟨v, hv⟩ := exists_record?.2 ⟨hpos, hle⟩
    obtain ⟨r, hid⟩ := h.hash number v hv
    refine ⟨r, ⟨number, v, hv, hid⟩, ?_⟩
    rw [idFor?, (h.number?_iff r number).2 ⟨v, hv, hid⟩, Option.map_some]

/-! ### Closed tables -/

theorem isClosed_iff
    {t : VariableTable} :
    t.IsClosed ↔ t.IsClosedFrom 0 :=
  ⟨fun h number v _ => h number v, fun h number v hv => h number v (pos_of_record? hv) hv⟩

theorem isClosed_empty : empty.IsClosed := by
  intro number v hv
  simp at hv

/-- Behind all records there is nothing to be closed. -/
theorem isClosedFrom_size
    (t : VariableTable) :
    t.IsClosedFrom t.size := by
  intro number v hnumber hv
  exact absurd (le_size_of_record? hv) (Nat.not_le_of_lt hnumber)

section Closed

variable {t : VariableTable} {count : Nat}

/-- A record without children leaves a table closed. -/
theorem isClosedFrom_register
    {v : Variable}
    (h : t.IsClosedFrom count)
    (r : Ref)
    (hleaf : v.children = #[]) :
    (t.register r v).IsClosedFrom count := by
  intro number w hnumber hw c hc
  rw [record?_register] at hw
  split at hw
  · rw [← Option.some.inj hw, hleaf] at hc
    simp at hc
  · exact (h number w hnumber hw c hc).mono (by simp)

/-- A change of a record that adds only references to records keeps the table
closed. -/
theorem isClosedFrom_modify
    {target : Nat} {f : Variable → Variable}
    (h : t.IsClosedFrom count)
    (htarget : 0 < target)
    (hf : ∀ v, ∀ c ∈ (f v).children, c ∈ v.children ∨ t.Knows c.id) :
    (t.modify target f).IsClosedFrom count := by
  intro number v hnumber hv c hc
  have hgrown : t.size ≤ (t.modify target f).size := by simp
  rw [record?_modify t htarget] at hv
  split at hv
  · obtain ⟨w, hw, rfl⟩ := Option.map_eq_some_iff.1 hv
    rcases hf w c hc with hold | hnew
    · exact (h number w hnumber hw c hold).mono hgrown
    · exact hnew.mono hgrown
  · exact (h number v hnumber hv c hc).mono hgrown

theorem isClosedFrom_addChild
    {parent : Nat} {child : VariableId}
    (h : t.IsClosedFrom count)
    (hparent : 0 < parent)
    (hchild : t.Knows child.id) :
    (t.addChild parent child).IsClosedFrom count := by
  refine isClosedFrom_modify h hparent fun v c hc => ?_
  rcases Array.mem_push.1 hc with hold | rfl
  · exact Or.inl hold
  · exact Or.inr hchild

theorem isClosedFrom_markTruncated
    {number : Nat}
    (h : t.IsClosedFrom count)
    (hnumber : 0 < number) :
    (t.markTruncated number).IsClosedFrom count :=
  isClosedFrom_modify h hnumber fun _ _ hc => Or.inl hc

end Closed

/-! ### The lookup table as it is delivered -/

/-- The identifiers of the lookup run from one without gaps. -/
theorem keys_lookup
    (t : VariableTable) :
    t.lookup.map Prod.fst = (List.range' 1 t.size).map idOf := by
  unfold lookup
  rw [List.map_map]
  refine List.ext_getElem (by simp [size]) fun i hi _ => ?_
  simp [Nat.add_comm]

/-- The lookup holds the records under their identifiers. -/
theorem mem_lookup_iff
    {t : VariableTable} {e : String × Variable} :
    e ∈ t.lookup ↔ ∃ number, t.record? number = some e.2 ∧ idOf number = e.1 := by
  constructor
  · intro he
    obtain ⟨⟨v, i⟩, hmem, rfl⟩ := List.mem_map.1 he
    have hget := List.mem_zipIdx_iff_getElem?.1 hmem
    exact ⟨i + 1, record?_eq_some_iff.2 ⟨by omega, by simpa using hget⟩, rfl⟩
  · rintro ⟨number, hrecord, hid⟩
    obtain ⟨hpos, hget⟩ := record?_eq_some_iff.1 hrecord
    refine List.mem_map.2 ⟨(e.2, number - 1), ?_, ?_⟩
    · rw [List.mem_zipIdx_iff_getElem?]
      simpa using hget
    · rw [Nat.sub_add_cancel hpos, hid]

theorem mem_keys_lookup_iff
    {t : VariableTable} {id : String} :
    id ∈ t.lookup.map Prod.fst ↔ t.Knows id := by
  rw [keys_lookup]
  simp only [List.mem_map, List.mem_range', Knows]
  constructor
  · rintro ⟨number, ⟨i, hi, rfl⟩, rfl⟩
    exact ⟨1 + 1 * i, by omega, by omega, rfl⟩
  · rintro ⟨number, hpos, hle, rfl⟩
    exact ⟨number, ⟨number - 1, by omega, by omega⟩, rfl⟩

end VariableTable
end LiveProbe
