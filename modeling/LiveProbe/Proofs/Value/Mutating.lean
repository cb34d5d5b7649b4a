import LiveProbe.Proofs.Lists
import LiveProbe.Proofs.Value.Matching

/-!
# Runs of mutations

What a value has become after the observed program went on.

**Specification.**  A mutation changes its target alone (`Mutation.apply`).  Of a run are told
the values that a field was set to, the items pushed and the entries inserted, each in the
order in which it happened.

**Results.**
* `read_mutate`: one mutation.
* `read_mutateAll_object`: a field has the last value that it was set to, else its first one.
* `read_mutateAll_list`, `read_mutateAll_dict`: items and entries stand behind those before.
* `read_mutateAll_of_scalar`: scalars stay as they are.
-/

namespace LiveProbe

/-- The value of the first field of a name. -/
def Value.firstField (fields : List (String × Ref)) (name : String) : Option Ref :=
  (fields.find? fun f => f.1 == name).map Prod.snd

namespace Heap

namespace Mutation

/-- The value that is changed. -/
def target : Mutation → Ref
  | .push target _ | .setField target _ _ | .insert target _ _ => target

/-- The change to the target. -/
def apply (v : Value) : Mutation → Value
  | .push _ item => v.pushItem item
  | .setField _ name value => v.setField name value
  | .insert _ key value => v.insertEntry key value

/-- The value that a field is set to. -/
def assigned? (r : Ref) (name : String) : Mutation → Option Ref
  | .setField target field value => if target = r ∧ field = name then some value else none
  | _ => none

/-- The item that is pushed. -/
def pushed? (r : Ref) : Mutation → Option Ref
  | .push target item => if target = r then some item else none
  | _ => none

/-- The entry that is inserted. -/
def inserted? (r : Ref) : Mutation → Option (Ref × Ref)
  | .insert target key value => if target = r then some (key, value) else none
  | _ => none

end Mutation

/-- The heap after mutations one after another. -/
def mutateAll (h : Heap) (ms : List Mutation) : Heap := ms.foldl mutate h

/-- The values that a field is set to, in turn. -/
def assigned (ms : List Mutation) (r : Ref) (name : String) : List Ref :=
  ms.filterMap (Mutation.assigned? r name)

/-- The items that are pushed, in turn. -/
def pushed (ms : List Mutation) (r : Ref) : List Ref := ms.filterMap (Mutation.pushed? r)

/-- The entries that are inserted, in turn. -/
def inserted (ms : List Mutation) (r : Ref) : List (Ref × Ref) :=
  ms.filterMap (Mutation.inserted? r)

variable {h : Heap} {r : Ref}

/-! ### One mutation -/

theorem mutate_eq
    (h : Heap) (m : Mutation) :
    h.mutate m = h.write m.target (m.apply (h.read m.target)) := by
  cases m <;> rfl

@[simp] theorem size_mutate
    (h : Heap) (m : Mutation) :
    (h.mutate m).size = h.size := by
  rw [mutate_eq, size_write]

theorem read_mutate
    (hlive : r < h.size)
    (m : Mutation) :
    (h.mutate m).read r = if m.target = r then m.apply (h.read r) else h.read r := by
  rw [mutate_eq]
  split
  · next htarget => rw [htarget, read_write_self h _ hlive]
  · next htarget => exact read_write_of_ne h _ htarget

theorem lt_size_of_read
    (hread : h.read r ≠ .none) :
    r < h.size := by
  by_contra hdead
  refine hread ?_
  rw [read, Array.getD_eq_getD_getElem?, Array.getElem?_eq_none (Nat.le_of_not_lt hdead),
    Option.getD_none]

/-! ### Fields -/

/-- Setting a field replaces the first of its name, or adds one. -/
theorem firstField_putField
    (name : String) (value : Ref) (fields : List (String × Ref)) (other : String) :
    Value.firstField (Value.putField name value fields) other =
      if name = other then some value else Value.firstField fields other := by
  induction fields with
  | nil => by_cases hname : name = other <;> simp [Value.putField, Value.firstField, hname]
  | cons f fields ih =>
      rw [Value.putField]
      by_cases hfirst : f.1 = name
      · by_cases hname : name = other <;> simp [Value.firstField, hfirst, hname]
      · rw [if_neg hfirst]
        by_cases hother : f.1 = other
        · have hname : name ≠ other := fun hname => hfirst (hother.trans hname.symm)
          simp [Value.firstField, hother, hname]
        · simpa [Value.firstField, hother] using ih

/-- After one change an object has the field assigned last. -/
theorem read_mutate_object
    {typeName : String} {fields : List (String × Ref)} {text : Option String}
    (hread : h.read r = .object typeName fields text)
    (m : Mutation) :
    ∃ fields', (h.mutate m).read r = .object typeName fields' text ∧
      ∀ name, Value.firstField fields' name =
        (m.assigned? r name).or (Value.firstField fields name) := by
  have hlive : r < h.size := lt_size_of_read (by simp [hread])
  rw [read_mutate hlive, hread]
  by_cases htarget : m.target = r
  · rw [if_pos htarget]
    cases m with
    | setField target field value =>
        refine ⟨_, rfl, fun name => ?_⟩
        obtain rfl : target = r := htarget
        rw [firstField_putField]
        by_cases hname : field = name <;> simp [Mutation.assigned?, hname]
    | push target item => exact ⟨fields, rfl, fun name => rfl⟩
    | insert target key value => exact ⟨fields, rfl, fun name => rfl⟩
  · rw [if_neg htarget]
    refine ⟨fields, rfl, fun name => ?_⟩
    cases m with
    | setField target field value =>
        have hother : target ≠ r := htarget
        simp [Mutation.assigned?, hother]
    | push target item => rfl
    | insert target key value => rfl

/-- A field has the last value that it was set to, else its first one. -/
theorem read_mutateAll_object
    {typeName : String} {fields : List (String × Ref)} {text : Option String}
    (hread : h.read r = .object typeName fields text)
    (ms : List Mutation) :
    ∃ fields', (h.mutateAll ms).read r = .object typeName fields' text ∧
      ∀ name, Value.firstField fields' name =
        (assigned ms r name).getLast?.or (Value.firstField fields name) := by
  induction ms generalizing h fields with
  | nil => exact ⟨fields, hread, fun name => rfl⟩
  | cons m ms ih =>
      obtain ⟨fields₁, hread₁, hfields₁⟩ := read_mutate_object hread m
      obtain ⟨fields', hread', hfields'⟩ := ih hread₁
      refine ⟨fields', hread', fun name => ?_⟩
      rw [hfields', hfields₁, assigned, assigned, List.getLast?_filterMap_cons, Option.or_assoc]

/-! ### Items and entries -/

theorem read_mutate_list
    {items : List Ref}
    (hread : h.read r = .list items)
    (m : Mutation) :
    (h.mutate m).read r = .list (items ++ pushed [m] r) := by
  have hlive : r < h.size := lt_size_of_read (by simp [hread])
  rw [read_mutate hlive, hread]
  cases m with
  | push target item =>
      by_cases htarget : target = r <;>
        simp [pushed, Mutation.target, Mutation.pushed?, Mutation.apply, Value.pushItem, htarget]
  | _ => simp [pushed, Mutation.pushed?, Mutation.apply, Value.setField, Value.insertEntry]

theorem read_mutateAll_list
    {items : List Ref}
    (hread : h.read r = .list items)
    (ms : List Mutation) :
    (h.mutateAll ms).read r = .list (items ++ pushed ms r) := by
  induction ms generalizing h items with
  | nil => simpa [mutateAll, pushed] using hread
  | cons m ms ih =>
      have hfirst := read_mutate_list hread m
      rw [mutateAll, List.foldl_cons, ← mutateAll, ih hfirst, List.append_assoc, pushed, pushed,
        ← List.filterMap_append]
      rfl

/-- A change adds the entries it inserts behind all others. -/
theorem read_mutate_dict
    {entries : List (Ref × Ref)}
    (hread : h.read r = .dict entries)
    (m : Mutation) :
    (h.mutate m).read r = .dict (entries ++ inserted [m] r) := by
  have hlive : r < h.size := lt_size_of_read (by simp [hread])
  rw [read_mutate hlive, hread]
  cases m with
  | insert target key value =>
      by_cases htarget : target = r <;>
        simp [inserted, Mutation.target, Mutation.inserted?, Mutation.apply, Value.insertEntry,
          htarget]
  | _ => simp [inserted, Mutation.inserted?, Mutation.apply, Value.setField, Value.pushItem]

theorem read_mutateAll_dict
    {entries : List (Ref × Ref)}
    (hread : h.read r = .dict entries)
    (ms : List Mutation) :
    (h.mutateAll ms).read r = .dict (entries ++ inserted ms r) := by
  induction ms generalizing h entries with
  | nil => simpa [mutateAll, inserted] using hread
  | cons m ms ih =>
      have hfirst := read_mutate_dict hread m
      rw [mutateAll, List.foldl_cons, ← mutateAll, ih hfirst, List.append_assoc, inserted,
        inserted, ← List.filterMap_append]
      rfl

/-! ### Scalars -/

@[simp] theorem size_mutateAll
    (h : Heap) (ms : List Mutation) :
    (h.mutateAll ms).size = h.size := by
  induction ms generalizing h with
  | nil => rfl
  | cons m ms ih => rw [mutateAll, List.foldl_cons, ← mutateAll, ih, size_mutate]

theorem Mutation.apply_of_scalar
    {v : Value}
    (hv : v.scalar?.isSome)
    (m : Mutation) :
    m.apply v = v := by
  cases v <;> cases m <;> first | rfl | cases hv

theorem read_mutateAll_of_scalar
    (hlive : r < h.size)
    (hscalar : (h.read r).scalar?.isSome)
    (ms : List Mutation) :
    (h.mutateAll ms).read r = h.read r := by
  induction ms generalizing h with
  | nil => rfl
  | cons m ms ih =>
      have hsame : (h.mutate m).read r = h.read r := by
        rw [read_mutate hlive, m.apply_of_scalar hscalar, ite_self]
      rw [mutateAll, List.foldl_cons, ← mutateAll, ih (by simpa using hlive) (hsame ▸ hscalar),
        hsame]

end Heap
end LiveProbe
