import LiveProbe.Proofs.Value.Alike
import LiveProbe.Proofs.Value.Matching

/-!
# Equality of copies

Is a value equal to a copy that has the same contents under identities of its own?

**Specification.**  A copy (`Heap.IsCopy`) is of the same scalars, in lists, tuples, sets and
dictionaries with the same contents in the same order.  The copied value is acyclic, as its
levels are counted.

**Termination.**  Inside pairs of containers the comparison goes down one level with each pair.
It never meets a pair inside itself, and the room for pairs suffices for as many levels
(`exists_limited`).

**Results.**
* `IsCopy.matches`: a value without sets matches its copy.
* `Matches.not_holdsSet`: a value with a set inside matches nothing that is apart from it.
* `equal_copy_iff`: equality has an outcome for a value and a copy, the same one both ways, and
  it is true exactly if no set is inside.
* `copied_set_differs`: a set and its copy.
-/

namespace LiveProbe

/-- Lists, tuples, sets and dictionaries. -/
def Value.IsCollection (v : Value) : Prop :=
  v.kind = .sequence ∨ v.kind = .set ∨ v.kind = .mapping

namespace Heap

/-- The second value has the contents of the first, which is built of scalars with collections
nested at most `levels` deep. -/
def IsCopy (h : Heap) : Nat → Ref → Ref → Prop
  | 0, x, y => (h.read x).scalar?.isSome ∧ h.read x = h.read y
  | levels + 1, x, y =>
      (h.read x).scalar?.isSome ∧ h.read x = h.read y ∨
        (h.read x).IsCollection ∧ (h.read x).Alike (IsCopy h levels) (h.read y)

/-- A comparison of the value looks into at most `levels` containers inside each other. -/
def IsShallow (h : Heap) : Nat → Ref → Prop
  | 0, x => (h.read x).kind ≠ .sequence ∧ (h.read x).kind ≠ .mapping
  | levels + 1, x => ∀ r ∈ (h.read x).compared, IsShallow h levels r

/-- A value is met strictly inside another. -/
def Below (h : Heap) (x r : Ref) : Prop :=
  Relation.TransGen (fun x r => r ∈ (h.read x).compared) x r

/-- A set is met when the value is compared to the bottom. -/
def HoldsSet (h : Heap) (x : Ref) : Prop := ∃ r, h.Inside x r ∧ (h.read r).kind = .set

variable {h : Heap} {x y : Ref} {levels : Nat}

/-! ### Levels -/

/-- Only sequences and mappings have parts that are compared. -/
theorem compared_eq_nil
    {v : Value}
    (hsequence : v.kind ≠ .sequence)
    (hmapping : v.kind ≠ .mapping) :
    v.compared = [] := by
  cases v <;> simp_all [Value.kind, Value.compared]

theorem Nests.kind
    {parts : Parts}
    (hxy : h.Nests x y parts) :
    (h.read x).kind = .sequence ∨ (h.read x).kind = .mapping := by
  have hparts := hxy.2
  cases hx : h.read x <;> cases hy : h.read y <;> simp_all [parts?, Value.kind]

/-- The parts of a value are one level shallower. -/
theorem IsShallow.of_nests
    {parts : Parts}
    (hx : h.IsShallow levels x)
    (hxy : h.Nests x y parts) :
    ∃ fewer, levels = fewer + 1 ∧ ∀ r ∈ (h.read x).compared, h.IsShallow fewer r := by
  cases levels with
  | zero =>
      rcases hxy.kind with hkind | hkind
      · exact absurd hkind hx.1
      · exact absurd hkind hx.2
  | succ fewer => exact ⟨fewer, rfl, hx⟩

theorem IsShallow.of_compared
    {r : Ref}
    (hx : h.IsShallow levels x)
    (hr : r ∈ (h.read x).compared) :
    ∃ fewer, levels = fewer + 1 ∧ h.IsShallow fewer r := by
  cases levels with
  | zero =>
      rw [compared_eq_nil hx.1 hx.2] at hr
      cases hr
  | succ fewer => exact ⟨fewer, rfl, hx r hr⟩

/-- What lies strictly inside has fewer levels. -/
theorem IsShallow.below
    {r : Ref}
    (hx : h.IsShallow levels x)
    (hr : h.Below x r) :
    ∃ fewer < levels, h.IsShallow fewer r := by
  induction hr with
  | single hr =>
      obtain ⟨fewer, rfl, hfewer⟩ := hx.of_compared hr
      exact ⟨fewer, fewer.lt_succ_self, hfewer⟩
  | tail _ hr ih =>
      obtain ⟨some, hlt, hsome⟩ := ih
      obtain ⟨fewer, rfl, hfewer⟩ := hsome.of_compared hr
      exact ⟨fewer, by omega, hfewer⟩

/-- A value of limited depth is not below itself. -/
theorem IsShallow.not_below_self
    (hx : h.IsShallow levels x) :
    ¬h.Below x x := by
  intro hself
  induction levels using Nat.strongRecOn with
  | ind levels ih =>
      obtain ⟨fewer, hlt, hfewer⟩ := hx.below hself
      exact ih fewer hlt hfewer

/-! ### Comparisons that end -/

/-- All questions that an inquiry may come to. -/
abbrev Asks (inquiry : Inquiry) (x y : Ref) : Prop := inquiry.ComesTo (fun _ _ _ => True) x y

/-- The comparison of sequences asks for items of the left one. -/
theorem asks_pairwise
    {a b : List Ref} {u v : Ref}
    (hasks : Asks (.pairwise a b) u v) :
    u ∈ a := by
  induction a generalizing b with
  | nil => cases hasks
  | cons x a ih =>
      cases b with
      | nil => cases hasks
      | cons y b =>
          cases hasks with
          | here => exact List.mem_cons_self
          | @later _ _ _ _ _ equal _ hnext =>
              cases equal with
              | true => exact List.mem_cons_of_mem _ (ih hnext)
              | false => cases hnext

/-- The scan for an entry asks for its key and value. -/
theorem asks_hasEntry
    {found missing : Inquiry} {key value : Ref} {entries : List (Ref × Ref)} {u v : Ref}
    (hasks : Asks (.hasEntry found missing key value entries) u v) :
    u = key ∨ u = value ∨ Asks found u v ∨ Asks missing u v := by
  induction entries with
  | nil => exact .inr (.inr (.inr hasks))
  | cons f entries ih =>
      cases hasks with
      | here => exact .inl rfl
      | @later _ _ _ _ _ equal _ hnext =>
          cases equal with
          | false => exact ih hnext
          | true =>
              cases hnext with
              | here => exact .inr (.inl rfl)
              | @later _ _ _ _ _ equal _ hnext =>
                  cases equal with
                  | false => exact ih hnext
                  | true => exact .inr (.inr (.inl hnext))

/-- The comparison of mappings asks for keys and values of the left one. -/
theorem asks_entrywise
    {a b : List (Ref × Ref)} {u v : Ref}
    (hasks : Asks (.entrywise a b) u v) :
    ∃ e ∈ a, u = e.1 ∨ u = e.2 := by
  induction a with
  | nil => cases hasks
  | cons e a ih =>
      rcases asks_hasEntry hasks with hkey | hvalue | hrest | hnone
      · exact ⟨e, List.mem_cons_self, .inl hkey⟩
      · exact ⟨e, List.mem_cons_self, .inr hvalue⟩
      · obtain ⟨f, hf, hu⟩ := ih hrest
        exact ⟨f, List.mem_cons_of_mem _ hf, hu⟩
      · cases hnone

/-- Containers are compared by what the first one holds. -/
theorem Nests.mem_of_asks
    {parts : Parts} {u v : Ref}
    (hxy : h.Nests x y parts)
    (hasks : Asks parts.inquiry u v) :
    u ∈ (h.read x).compared := by
  cases parts with
  | items a b =>
      rw [Parts.inquiry] at hasks
      split at hasks
      · rw [hxy.compared_items.1]
        exact asks_pairwise hasks
      · cases hasks
  | entries a b =>
      rw [Parts.inquiry] at hasks
      split at hasks
      · obtain ⟨e, he, hu⟩ := asks_entrywise hasks
        have hparts := mem_compared_dict he
        rw [← hxy.read_entries.1] at hparts
        rcases hu with rfl | rfl
        · exact hparts.1
        · exact hparts.2
      · cases hasks

/-- With an outcome for each question there is one for the inquiry. -/
theorem exists_run
    {same : Ref → Ref → Except EvalError Bool} {inquiry : Inquiry}
    (hsame : ∀ u v, Asks inquiry u v → ∃ outcome, same u v = .ok outcome) :
    ∃ outcome, inquiry.run same = .ok outcome := by
  induction inquiry with
  | answer equal => exact ⟨equal, rfl⟩
  | ask x y next ih =>
      obtain ⟨equal, hequal⟩ := hsame x y .here
      obtain ⟨outcome, hrun⟩ := ih equal fun u v hasks => hsame u v (.later trivial hasks)
      refine ⟨outcome, ?_⟩
      rw [Inquiry.run, hequal]
      exact hrun

/-- A comparison with room for the levels of the first value has an outcome. -/
theorem exists_limited
    {room : Nat} {active : List (Ref × Ref)}
    (hx : h.IsShallow levels x)
    (hroom : levels ≤ room)
    (hactive : ∀ p ∈ active, h.Below p.1 x) :
    ∃ outcome, h.limited room active x y = .ok outcome := by
  induction levels generalizing room active x y with
  | zero =>
      rcases isImmediate_or_nests h x y with ⟨outcome, hxy⟩ | ⟨parts, hxy⟩
      · exact ⟨outcome, hxy.limited room active⟩
      · obtain ⟨fewer, hlevels, -⟩ := hx.of_nests hxy
        cases hlevels
  | succ levels ih =>
      rcases isImmediate_or_nests h x y with ⟨outcome, hxy⟩ | ⟨parts, hxy⟩
      · exact ⟨outcome, hxy.limited room active⟩
      · obtain ⟨room, rfl⟩ := Nat.exists_eq_add_of_le' (Nat.le_of_add_left_le hroom)
        have hnew : (x, y) ∉ active := fun hmem => hx.not_below_self (hactive _ hmem)
        rw [hxy.limited_succ, if_neg hnew]
        refine exists_run fun u v hasks => ?_
        have hu := hxy.mem_of_asks hasks
        refine ih (hx u hu) (by omega) fun p hp => ?_
        rcases List.mem_cons.1 hp with rfl | hp
        · exact .single hu
        · exact (hactive p hp).tail hu

/-- Equality of a value within the nesting limit has an outcome. -/
theorem exists_equal
    (hx : h.IsShallow Limits.valueNesting x)
    (y : Ref) :
    ∃ outcome, h.equal x y = .ok outcome := by
  have hlimited : ∃ outcome, h.limited Limits.valueNesting [] x y = .ok outcome :=
    exists_limited hx (Nat.le_refl _) fun p hp => absurd hp List.not_mem_nil
  exact hlimited.imp fun _ => equal_of_limited

/-! ### Copies -/

section Values

variable {R : Ref → Ref → Prop} {v w : Value}

/-- Alike collections other than sets have paired parts to compare. -/
theorem parts_of_alike
    (hcollection : v.IsCollection)
    (hset : v.kind ≠ .set)
    (halike : v.Alike R w) :
    (∃ a b, parts? v w = some (.items a b) ∧ List.Forall₂ R a b) ∨
      ∃ a b, parts? v w = some (.entries a b) ∧ List.Forall₂ (Value.EntryAlike R) a b := by
  cases halike with
  | list hitems => exact .inl ⟨_, _, rfl, hitems⟩
  | tuple hitems => exact .inl ⟨_, _, rfl, hitems⟩
  | dict hentries => exact .inr ⟨_, _, rfl, hentries⟩
  | set => exact absurd rfl hset
  | _ => simp [Value.IsCollection, Value.kind] at hcollection

theorem kind_of_scalar
    {s : Scalar}
    (hv : v.scalar? = some s) :
    v.kind = .primitive := by
  cases v <;> simp_all [Value.scalar?, Value.kind]

theorem isFloat_of_scalar
    {s : Scalar}
    (hv : v.scalar? = some s) :
    v.isFloat = false := by
  cases v <;> simp_all [Value.scalar?, Value.isFloat]

theorem kind_of_sameScalar
    (hsame : sameScalar v w = true) :
    v.kind = .primitive := by
  cases v <;> cases w <;> simp_all [sameScalar, Value.number?, Value.kind]

end Values

/-- A copy is of a scalar, or of a collection whose parts are copied. -/
theorem IsCopy.cases
    (hcopy : h.IsCopy levels x y) :
    (∃ s, (h.read x).scalar? = some s ∧ h.read x = h.read y) ∨
      ∃ fewer, levels = fewer + 1 ∧ (h.read x).IsCollection ∧
        (h.read x).Alike (h.IsCopy fewer) (h.read y) := by
  cases levels with
  | zero =>
      obtain ⟨s, hs⟩ := Option.isSome_iff_exists.1 hcopy.1
      exact .inl ⟨s, hs, hcopy.2⟩
  | succ fewer =>
      rcases hcopy with ⟨hscalar, heq⟩ | hcollection
      · obtain ⟨s, hs⟩ := Option.isSome_iff_exists.1 hscalar
        exact .inl ⟨s, hs, heq⟩
      · exact .inr ⟨fewer, rfl, hcollection⟩

theorem IsCopy.kind_eq
    (hcopy : h.IsCopy levels x y) :
    (h.read x).kind = (h.read y).kind := by
  rcases hcopy.cases with ⟨s, -, heq⟩ | ⟨fewer, -, -, halike⟩
  · rw [heq]
  · exact halike.kind_eq

theorem IsCopy.symm
    (hcopy : h.IsCopy levels x y) :
    h.IsCopy levels y x := by
  induction levels generalizing x y with
  | zero => exact ⟨hcopy.2 ▸ hcopy.1, hcopy.2.symm⟩
  | succ levels ih =>
      rcases hcopy with ⟨hscalar, heq⟩ | ⟨hcollection, halike⟩
      · exact .inl ⟨heq ▸ hscalar, heq.symm⟩
      · refine .inr ⟨?_, halike.symm.mono fun _ _ => ih⟩
        rwa [Value.IsCollection, ← halike.kind_eq]

/-- Each value inside has its copy inside the copy. -/
theorem IsCopy.exists_part
    {u : Ref}
    (hcopy : h.IsCopy levels x y)
    (hu : u ∈ (h.read x).compared) :
    ∃ fewer, levels = fewer + 1 ∧ ∃ v ∈ (h.read y).compared, h.IsCopy fewer u v := by
  rcases hcopy.cases with ⟨s, hs, -⟩ | ⟨fewer, rfl, hcollection, halike⟩
  · rw [compared_eq_nil (by simp [kind_of_scalar hs]) (by simp [kind_of_scalar hs])] at hu
    cases hu
  refine ⟨fewer, rfl, ?_⟩
  by_cases hset : (h.read x).kind = .set
  · rw [compared_eq_nil (by simp [hset]) (by simp [hset])] at hu
    cases hu
  rcases parts_of_alike hcollection hset halike with ⟨a, b, hparts, hitems⟩ |
    ⟨a, b, hparts, hentries⟩
  · obtain ⟨hx, hy⟩ := parts?_eq_items hparts
    rw [hx] at hu
    rw [hy]
    exact hitems.exists_mem hu
  · obtain ⟨hx, hy⟩ := parts?_eq_entries hparts
    rw [hx] at hu
    obtain ⟨e, he, hu⟩ := List.mem_flatMap.1 hu
    obtain ⟨f, hf, hkey, hvalue⟩ := hentries.exists_mem he
    have hboth := mem_compared_dict hf
    rw [hy]
    rcases List.mem_pair.1 hu with rfl | rfl
    · exact ⟨f.1, hboth.1, hkey⟩
    · exact ⟨f.2, hboth.2, hvalue⟩

/-- What is copied is as shallow as the copy says. -/
theorem IsCopy.isShallow
    (hcopy : h.IsCopy levels x y) :
    h.IsShallow levels x := by
  induction levels generalizing x y with
  | zero =>
      obtain ⟨s, hs⟩ := Option.isSome_iff_exists.1 hcopy.1
      simp [IsShallow, kind_of_scalar hs]
  | succ levels ih =>
      intro u hu
      obtain ⟨fewer, hlevels, v, -, huv⟩ := hcopy.exists_part hu
      cases hlevels
      exact ih huv

/-! ### Sets inside -/

theorem HoldsSet.of_compared
    {u : Ref}
    (hset : h.HoldsSet u)
    (hu : u ∈ (h.read x).compared) :
    h.HoldsSet x := by
  obtain ⟨r, hr, hkind⟩ := hset
  exact ⟨r, hr.of_compared hu, hkind⟩

/-- A value that holds a set is one, or has a part that holds one. -/
theorem HoldsSet.cases
    (hset : h.HoldsSet x) :
    (h.read x).kind = .set ∨ ∃ u ∈ (h.read x).compared, h.HoldsSet u := by
  obtain ⟨r, hr, hkind⟩ := hset
  rcases Relation.ReflTransGen.cases_head hr with rfl | ⟨u, hu, hr⟩
  · exact .inl hkind
  · exact .inr ⟨u, hu, r, hr, hkind⟩

theorem IsCopy.holdsSet
    (hcopy : h.IsCopy levels x y)
    (hset : h.HoldsSet x) :
    h.HoldsSet y := by
  induction levels generalizing x y with
  | zero =>
      rcases hset.cases with hkind | ⟨u, hu, -⟩
      · exact ⟨y, .refl, hcopy.kind_eq ▸ hkind⟩
      · obtain ⟨fewer, hlevels, -⟩ := hcopy.exists_part hu
        cases hlevels
  | succ levels ih =>
      rcases hset.cases with hkind | ⟨u, hu, hset⟩
      · exact ⟨y, .refl, hcopy.kind_eq ▸ hkind⟩
      · obtain ⟨fewer, hlevels, v, hv, huv⟩ := hcopy.exists_part hu
        cases hlevels
        exact (ih huv hset).of_compared hv

theorem matches_of_scalar
    {s : Scalar}
    (hx : (h.read x).scalar? = some s)
    (hy : (h.read y).scalar? = some s) :
    h.Matches x y :=
  .immediate ((isImmediate_true_iff (isFloat_of_scalar hx) (isFloat_of_scalar hy)).2
    (.inr ⟨s, hx, hy⟩))

/-- A value without sets matches its copies. -/
theorem IsCopy.matches
    (hcopy : h.IsCopy levels x y)
    (hset : ¬h.HoldsSet x) :
    h.Matches x y := by
  induction levels generalizing x y with
  | zero =>
      obtain ⟨s, hs⟩ := Option.isSome_iff_exists.1 hcopy.1
      exact matches_of_scalar hs (hcopy.2 ▸ hs)
  | succ levels ih =>
      rcases hcopy with ⟨hscalar, heq⟩ | ⟨hcollection, halike⟩
      · obtain ⟨s, hs⟩ := Option.isSome_iff_exists.1 hscalar
        exact matches_of_scalar hs (heq ▸ hs)
      by_cases hxy : x = y
      · exact hxy ▸ matches_refl h x
      have hpart : ∀ u v, u ∈ (h.read x).compared → h.IsCopy levels u v → h.Matches u v :=
        fun u v hu huv => ih huv fun hholds => hset (hholds.of_compared hu)
      have hkind : (h.read x).kind ≠ .set := fun hkind => hset ⟨x, .refl, hkind⟩
      rcases parts_of_alike hcollection hkind halike with ⟨a, b, hparts, hitems⟩ |
        ⟨a, b, hparts, hentries⟩
      · have hnests : h.Nests x y (.items a b) := ⟨hxy, hparts⟩
        refine hnests.matches_items_iff.2 (List.forall₂_iff_zip.2 ⟨hitems.length_eq, ?_⟩)
        intro u v huv
        refine hpart u v ?_ (List.forall₂_zip hitems huv)
        rw [hnests.compared_items.1]
        exact (List.of_mem_zip huv).1
      · have hnests : h.Nests x y (.entries a b) := ⟨hxy, hparts⟩
        refine hnests.matches_entries_iff.2 ⟨hentries.length_eq, fun e he => ?_⟩
        obtain ⟨f, hf, hkey, hvalue⟩ := hentries.exists_mem he
        have hmem := mem_compared_dict he
        rw [← hnests.read_entries.1] at hmem
        exact ⟨f, hf, hpart _ _ hmem.1 hkey, hpart _ _ hmem.2 hvalue⟩

/-- A value with a set inside matches nothing that is apart from it. -/
theorem Matches.not_holdsSet
    (hxy : h.Matches x y)
    (hapart : ∀ r, h.Inside x r → ¬h.Inside y r) :
    ¬h.HoldsSet x := by
  -- What matches part by part is apart part by part.
  have hparts : ∀ {x y u v : Ref}, (∀ r, h.Inside x r → ¬h.Inside y r) →
      u ∈ (h.read x).compared → v ∈ (h.read y).compared →
        ∀ r, h.Inside u r → ¬h.Inside v r :=
    fun hapart hu hv r hr hr' => hapart r (hr.of_compared hu) (hr'.of_compared hv)
  induction hxy with
  | @immediate x y hdirect =>
      obtain ⟨rfl, -⟩ | ⟨-, -, hsame⟩ := hdirect
      · exact absurd .refl (hapart x .refl)
      · have hkind := kind_of_sameScalar hsame.symm
        intro hset
        rcases hset.cases with hkind' | ⟨u, hu, -⟩
        · simp [hkind] at hkind'
        · rw [compared_eq_nil (by simp [hkind]) (by simp [hkind])] at hu
          cases hu
  | @items x y a b hnests hlength hitems ih =>
      intro hset
      rcases hset.cases with hkind | ⟨u, hu, hset⟩
      · rcases hnests.kind with hkind' | hkind' <;> simp [hkind'] at hkind
      · obtain ⟨hx, hy⟩ := hnests.compared_items
        have hmatches := List.forall₂_iff_zip.2 ⟨hlength, fun {u v} huv => huv⟩
        rw [hx] at hu
        obtain ⟨v, hv, huv⟩ := hmatches.exists_mem hu
        exact ih u v huv (hparts hapart (hx ▸ hu) (hy ▸ hv)) hset
  | @entries x y a b like hnests hlength hlike hkeys hvalues ihkeys ihvalues =>
      intro hset
      rcases hset.cases with hkind | ⟨u, hu, hset⟩
      · rcases hnests.kind with hkind' | hkind' <;> simp [hkind'] at hkind
      · obtain ⟨hx, hy⟩ := hnests.read_entries
        rw [hx] at hu
        obtain ⟨e, he, hu⟩ := List.mem_flatMap.1 hu
        have hmem := mem_compared_dict he
        have hmem' := mem_compared_dict (hlike e he)
        rw [← hx] at hmem
        rw [← hy] at hmem'
        rcases List.mem_pair.1 hu with rfl | rfl
        · exact ihkeys e he (hparts hapart hmem.1 hmem'.1) hset
        · exact ihvalues e he (hparts hapart hmem.2 hmem'.2) hset

/-- A copy that shares nothing with its original matches it exactly if there is no set in it. -/
theorem IsCopy.matches_iff
    (hcopy : h.IsCopy levels x y)
    (hapart : ∀ r, h.Inside x r → ¬h.Inside y r) :
    h.Matches x y ↔ ¬h.HoldsSet x :=
  ⟨fun hxy => hxy.not_holdsSet hapart, hcopy.matches⟩

/-- Equality has an outcome for a value and a copy that is apart from it, the same one both
ways, and it is true exactly if no set is inside. -/
theorem equal_copy_iff
    (hcopy : h.IsCopy Limits.valueNesting x y)
    (hapart : ∀ r, h.Inside x r → ¬h.Inside y r) :
    ∃ outcome, h.equal x y = .ok outcome ∧ h.equal y x = .ok outcome ∧
      (outcome = true ↔ ¬h.HoldsSet x) := by
  obtain ⟨outcome, hxy⟩ := exists_equal hcopy.isShallow y
  obtain ⟨reversed, hyx⟩ := exists_equal hcopy.symm.isShallow x
  have houtcome : outcome = true ↔ ¬h.HoldsSet x :=
    (outcome_iff_of_equal hxy).trans (hcopy.matches_iff hapart)
  have hreversed : reversed = true ↔ ¬h.HoldsSet y :=
    (outcome_iff_of_equal hyx).trans
      (hcopy.symm.matches_iff fun r hr hr' => hapart r hr' hr)
  have hsame : reversed = outcome := by
    rw [Bool.eq_iff_iff, houtcome, hreversed]
    exact not_congr ⟨hcopy.symm.holdsSet, hcopy.holdsSet⟩
  exact ⟨outcome, hxy, hsame ▸ hyx, houtcome⟩

/-! ### A set and its copy -/

/-- Two lists with a dictionary and an empty tuple, at 4 and 9, and two sets, at 11 and 13. -/
def copied : Heap :=
  ⟨#[.str "k", .bool true, .dict [(0, 1), (0, 1)], .tuple [], .list [2, 3],
    .str "k", .bool true, .dict [(5, 6), (5, 6)], .tuple [], .list [7, 8],
    .int 1, .set [10], .int 1, .set [12]]⟩

/-- What is closed under parts and holds a value holds all that is met inside. -/
theorem Inside.mem_of_closed
    {S : List Ref} {r : Ref}
    (hr : h.Inside x r)
    (hx : x ∈ S)
    (hclosed : ∀ u ∈ S, ∀ v ∈ (h.read u).compared, v ∈ S) :
    r ∈ S := by
  induction hr with
  | refl => exact hx
  | tail _ hv ih => exact hclosed _ ih _ hv

theorem isCopy_of_scalar
    (hscalar : (h.read x).scalar?.isSome)
    (heq : h.read x = h.read y)
    (levels : Nat) :
    h.IsCopy levels x y := by
  cases levels with
  | zero => exact ⟨hscalar, heq⟩
  | succ levels => exact .inl ⟨hscalar, heq⟩

/-- A list of a dictionary and an empty tuple, and its copy. -/
theorem equal_copy_iff_nested :
    ∃ outcome, copied.equal 4 9 = .ok outcome ∧ copied.equal 9 4 = .ok outcome ∧
      (outcome = true ↔ ¬copied.HoldsSet 4) := by
  refine equal_copy_iff ?_ fun r hr hr' => ?_
  · have hkey : ∀ levels, copied.IsCopy levels 0 5 := isCopy_of_scalar rfl rfl
    have hvalue : ∀ levels, copied.IsCopy levels 1 6 := isCopy_of_scalar rfl rfl
    have hdict : ∀ levels, copied.IsCopy (levels + 1) 2 7 := fun levels =>
      .inr ⟨.inr (.inr rfl),
        .dict (.cons ⟨hkey levels, hvalue levels⟩ (.cons ⟨hkey levels, hvalue levels⟩ .nil))⟩
    have htuple : ∀ levels, copied.IsCopy (levels + 1) 3 8 := fun levels =>
      .inr ⟨.inl rfl, .tuple .nil⟩
    have hlist : ∀ levels, copied.IsCopy (levels + 2) 4 9 := fun levels =>
      .inr ⟨.inl rfl, .list (.cons (hdict levels) (.cons (htuple levels) .nil))⟩
    exact hlist 98
  · have hleft : r ∈ [0, 1, 2, 3, 4] := hr.mem_of_closed (by decide) (by decide)
    have hright : r ∈ [5, 6, 7, 8, 9] := hr'.mem_of_closed (by decide) (by decide)
    have hnone : ∀ r ∈ [0, 1, 2, 3, 4], r ∉ [5, 6, 7, 8, 9] := by decide
    exact hnone r hleft hright

/-- A set is not equal to its copy. -/
theorem copied_set_differs :
    copied.IsCopy Limits.valueNesting 11 13 ∧ (∀ r, copied.Inside 11 r → ¬copied.Inside 13 r) ∧
      copied.equal 11 13 = .ok false := by
  refine ⟨?_, fun r hr hr' => ?_, equal_of_limited (by rfl)⟩
  · have hitem : copied.IsCopy 99 10 12 := isCopy_of_scalar rfl rfl 99
    exact .inr ⟨.inr (.inl rfl), .set (.cons hitem .nil)⟩
  · have hleft : r ∈ [11] := hr.mem_of_closed (by decide) (by decide)
    have hright : r ∈ [13] := hr'.mem_of_closed (by decide) (by decide)
    simp_all

end Heap
end LiveProbe
