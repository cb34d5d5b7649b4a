/-!
# Sorted maps

Finite maps from strings, kept as lists of entries in ascending order of their
keys, so that two maps with the same entries are the same map.

**Results.**
* `get?_insert_self`, `get?_insert_of_ne`: an insertion is read back and changes
  no other key.
-/

namespace LiveProbe

/-- Keys in ascending order. -/
def Ascending {α : Type} (entries : List (String × α)) : Prop :=
  entries.Pairwise fun a b => a.1 < b.1

/-- Maps from strings. -/
structure SortedMap (α : Type) where
  entries : List (String × α)
  ascending : Ascending entries

namespace SortedMap

variable {α : Type}

/-- The map without entries. -/
def empty : SortedMap α := ⟨[], List.Pairwise.nil⟩

/-- Puts an entry into its place, in the stead of one with the same key. -/
def place (key : String) (value : α) : List (String × α) → List (String × α)
  | [] => [(key, value)]
  | e :: es =>
    if key < e.1 then (key, value) :: e :: es
    else if key = e.1 then (key, value) :: es
    else e :: place key value es

theorem mem_place {key : String} {value : α} {es : List (String × α)} {e : String × α}
    (h : e ∈ place key value es) : e = (key, value) ∨ e ∈ es := by
  induction es with
  | nil => simpa [place] using h
  | cons d ds ih =>
    unfold place at h
    split at h
    · simpa using h
    · split at h
      · simp only [List.mem_cons] at h ⊢
        exact h.imp_right Or.inr
      · simp only [List.mem_cons] at h ⊢
        rcases h with h | h
        · exact Or.inr (Or.inl h)
        · exact (ih h).imp_right Or.inr

theorem ascending_place {key : String} {value : α} {es : List (String × α)}
    (h : Ascending es) : Ascending (place key value es) := by
  induction es with
  | nil => exact List.pairwise_singleton _ _
  | cons d ds ih =>
    obtain ⟨hd, ht⟩ := List.pairwise_cons.1 h
    unfold place
    split
    · next hlt =>
      refine List.pairwise_cons.2 ⟨fun e he => ?_, h⟩
      rcases List.mem_cons.1 he with rfl | he
      · exact hlt
      · exact String.lt_trans hlt (hd e he)
    · next hlt =>
      split
      · next heq =>
        subst heq
        exact List.pairwise_cons.2 ⟨hd, ht⟩
      · next hne =>
        refine List.pairwise_cons.2 ⟨fun e he => ?_, ih ht⟩
        rcases mem_place he with rfl | he
        · grind
        · exact hd e he

/-- Binds a key to a value. -/
def insert (m : SortedMap α) (key : String) (value : α) : SortedMap α :=
  ⟨place key value m.entries, ascending_place m.ascending⟩

/-- The value of a key. -/
def get? (m : SortedMap α) (key : String) : Option α := m.entries.lookup key

/-- Removes a key. -/
def erase (m : SortedMap α) (key : String) : SortedMap α :=
  ⟨m.entries.filter fun e => e.1 != key, m.ascending.filter _⟩

/-- The map of a list of entries; of several with one key the last counts. -/
def ofList (es : List (String × α)) : SortedMap α :=
  es.foldl (fun m e => m.insert e.1 e.2) empty

/-- Adds all entries of a second map, which win over those of the first. -/
def union (m n : SortedMap α) : SortedMap α :=
  n.entries.foldl (fun m e => m.insert e.1 e.2) m

/-- The number of entries. -/
def size (m : SortedMap α) : Nat := m.entries.length

/-- The keys in ascending order. -/
def keys (m : SortedMap α) : List String := m.entries.map Prod.fst

/-- There is no entry. -/
def isEmpty (m : SortedMap α) : Bool := m.entries.isEmpty

@[ext] theorem ext_entries {m n : SortedMap α} (h : m.entries = n.entries) : m = n := by
  cases m; cases n; simp_all

instance [DecidableEq α] : DecidableEq (SortedMap α) := fun m n =>
  if h : m.entries = n.entries then isTrue (ext_entries h)
  else isFalse fun e => h (e ▸ rfl)

theorem lookup_cons_of_ne {other : String} {e : String × α} (es : List (String × α))
    (hne : other ≠ e.1) : (e :: es).lookup other = es.lookup other := by
  obtain ⟨key, value⟩ := e
  rw [List.lookup_cons, beq_false_of_ne hne]

theorem lookup_place_self (key : String) (value : α) (es : List (String × α)) :
    (place key value es).lookup key = some value := by
  induction es with
  | nil => exact List.lookup_cons_self
  | cons d ds ih =>
    unfold place
    split
    · exact List.lookup_cons_self
    · split
      · exact List.lookup_cons_self
      · next hne => rw [lookup_cons_of_ne _ hne, ih]

theorem lookup_place_of_ne {key other : String} (value : α) (es : List (String × α))
    (hne : other ≠ key) : (place key value es).lookup other = es.lookup other := by
  induction es with
  | nil => exact lookup_cons_of_ne [] hne
  | cons d ds ih =>
    unfold place
    split
    · exact lookup_cons_of_ne _ hne
    · split
      · next heq => rw [lookup_cons_of_ne _ hne, lookup_cons_of_ne _ (heq ▸ hne)]
      · by_cases hd : other = d.1
        · obtain ⟨name, found⟩ := d
          subst hd
          rw [List.lookup_cons_self, List.lookup_cons_self]
        · rw [lookup_cons_of_ne _ hd, lookup_cons_of_ne _ hd, ih]

theorem get?_insert_self (m : SortedMap α) (key : String) (value : α) :
    (m.insert key value).get? key = some value :=
  lookup_place_self ..

theorem get?_insert_of_ne (m : SortedMap α) {key other : String} (value : α)
    (hne : other ≠ key) : (m.insert key value).get? other = m.get? other :=
  lookup_place_of_ne _ _ hne

end SortedMap
end LiveProbe
