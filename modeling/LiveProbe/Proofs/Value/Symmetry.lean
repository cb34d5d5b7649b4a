import LiveProbe.Proofs.Lists
import LiveProbe.Proofs.Value.Matching

/-!
# Symmetry of equality

When do two values that are compared one way and the other come to the same outcome?

Each entry of a dictionary is looked up among those of the other, and there must be as many.
A dictionary that holds an entry twice may thus equal one that holds it once and another entry
beside it, of which the comparison takes no notice.

**Specification.**  A comparison *overlooks* something (`Heap.Overlooks`) if at some place of
the items two dictionaries stand of which the second has an entry that matches none of the
first.  A dictionary *repeats* itself (`Heap.Repeats`) if an entry matches a later one.

**Results.**
* `Matches.trans`: matching is transitive.
* `Matches.symm`: it is symmetric, where no dictionary repeats itself.
* `equal_comm_iff`: outcomes agree exactly if neither of two true comparisons overlooks
  anything; and one that does has a dictionary inside that repeats itself.
* `repeated_equals_wider`: two dictionaries that are equal one way only.
-/

namespace LiveProbe
namespace Heap

/-- The comparison takes no notice of an entry of the second value. -/
inductive Overlooks (h : Heap) : Ref → Ref → Prop
  | entry {x y : Ref} {a b : List (Ref × Ref)} {f : Ref × Ref} :
      h.Nests x y (.entries a b) → f ∈ b → (∀ e ∈ a, ¬h.MatchesEntry f e) → Overlooks h x y
  | item {x y u v : Ref} {a b : List Ref} :
      h.Nests x y (.items a b) → (u, v) ∈ a.zip b → Overlooks h u v → Overlooks h x y

/-- A dictionary that holds an entry and further on one that it matches. -/
def Repeats (h : Heap) (r : Ref) : Prop :=
  ∃ entries, h.read r = .dict entries ∧ ∃ e f, [e, f].Sublist entries ∧ h.MatchesEntry e f

variable {h : Heap} {x y z : Ref}

/-! ### Containers -/

/-- The items of two sequences are compared in either direction. -/
theorem parts?_comm_items
    {v w : Value} {a b : List Ref}
    (hparts : parts? v w = some (.items a b)) :
    parts? w v = some (.items b a) := by
  cases v <;> cases w <;> simp_all [parts?]

/-- Sequences that compare with a third compare with each other. -/
theorem parts?_trans_items
    {u v w : Value} {a b b' c : List Ref}
    (huv : parts? u v = some (.items a b))
    (hvw : parts? v w = some (.items b' c)) :
    parts? u w = some (.items a c) := by
  cases v with
  | list items => cases u <;> cases w <;> simp_all [parts?]
  | tuple items => cases u <;> cases w <;> simp_all [parts?]
  | _ => cases u <;> simp [parts?] at huv

theorem Nests.symm_items
    {a b : List Ref}
    (hxy : h.Nests x y (.items a b)) :
    h.Nests y x (.items b a) :=
  ⟨hxy.1.symm, parts?_comm_items hxy.2⟩

theorem Nests.symm_entries
    {a b : List (Ref × Ref)}
    (hxy : h.Nests x y (.entries a b)) :
    h.Nests y x (.entries b a) := by
  obtain ⟨hx, hy⟩ := hxy.read_entries
  exact ⟨hxy.1.symm, by rw [hx, hy]; rfl⟩

theorem Nests.scalar?_eq_none
    {parts : Parts}
    (hxy : h.Nests x y parts) :
    (h.read x).scalar? = none := by
  by_contra hscalar
  obtain ⟨s, hs⟩ := Option.ne_none_iff_exists'.1 hscalar
  have hparts := hxy.2
  rw [parts?_of_scalar hs] at hparts
  cases hparts

theorem Nests.scalar?_eq_none_right
    {parts : Parts}
    (hxy : h.Nests x y parts) :
    (h.read y).scalar? = none := by
  cases parts with
  | items a b => exact hxy.symm_items.scalar?_eq_none
  | entries a b => exact hxy.symm_entries.scalar?_eq_none

theorem FloatFree.isFloat_eq
    (hx : h.FloatFree x) :
    (h.read x).isFloat = false :=
  hx x .refl

/-- What is free of such numbers has parts that are. -/
theorem FloatFree.of_compared
    {r : Ref}
    (hx : h.FloatFree x)
    (hr : r ∈ (h.read x).compared) :
    h.FloatFree r :=
  fun s hs => hx s (hs.of_compared hr)

theorem FloatFree.items
    {a b : List Ref}
    (hx : h.FloatFree x)
    (hxy : h.Nests x y (.items a b)) :
    ∀ u ∈ a, h.FloatFree u := by
  rw [← hxy.compared_items.1]
  exact fun u hu => hx.of_compared hu

theorem FloatFree.entries
    {a b : List (Ref × Ref)}
    (hx : h.FloatFree x)
    (hxy : h.Nests x y (.entries a b)) :
    ∀ e ∈ a, h.FloatFree e.1 ∧ h.FloatFree e.2 := by
  intro e he
  have hparts := mem_compared_dict he
  rw [← hxy.read_entries.1] at hparts
  exact ⟨hx.of_compared hparts.1, hx.of_compared hparts.2⟩

/-! ### Transitivity -/

/-- What a container matches is the same container, or one with parts to compare. -/
theorem Matches.eq_or_nests
    (hx : h.FloatFree x)
    (hy : h.FloatFree y)
    (hxy : h.Matches x y)
    (hcontainer : (h.read x).scalar? = none) :
    x = y ∨ ∃ parts, h.Nests x y parts := by
  cases hxy with
  | immediate hdirect =>
      rcases (isImmediate_true_iff hx.isFloat_eq hy.isFloat_eq).1 hdirect with heq | ⟨s, hs, -⟩
      · exact .inl heq
      · rw [hcontainer] at hs
        cases hs
  | items hnests => exact .inr ⟨_, hnests⟩
  | entries _ hnests => exact .inr ⟨_, hnests⟩

/-- Behind a pair of rows stands another row. -/
theorem Nests.behind_items
    {a b : List Ref} {parts : Parts}
    (hxy : h.Nests x y (.items a b))
    (hyz : h.Nests y z parts) :
    ∃ c, parts = .items b c ∧ parts? (h.read x) (h.read z) = some (.items a c) := by
  cases parts with
  | items b' c =>
      have hb : b' = b := hyz.compared_items.1.symm.trans hxy.compared_items.2
      exact ⟨c, by rw [hb], parts?_trans_items hxy.2 hyz.2⟩
  | entries b' c =>
      have hparts := hxy.2
      rw [hyz.read_entries.1] at hparts
      cases hv : h.read x <;> simp [parts?, hv] at hparts

/-- Behind a pair of dictionaries stands another dictionary. -/
theorem Nests.behind_entries
    {a b : List (Ref × Ref)} {parts : Parts}
    (hxy : h.Nests x y (.entries a b))
    (hyz : h.Nests y z parts) :
    ∃ c, parts = .entries b c ∧ parts? (h.read x) (h.read z) = some (.entries a c) := by
  obtain ⟨hx, hy⟩ := hxy.read_entries
  have hparts := hyz.2
  rw [hy] at hparts
  cases hz : h.read z with
  | dict c =>
      rw [hz] at hparts
      exact ⟨c, (Option.some.inj hparts).symm, by rw [hx]; rfl⟩
  | _ => simp [parts?, hz] at hparts

/-- Matching is transitive among values free of such numbers. -/
theorem Matches.trans
    (hx : h.FloatFree x)
    (hy : h.FloatFree y)
    (hz : h.FloatFree z)
    (hxy : h.Matches x y)
    (hyz : h.Matches y z) :
    h.Matches x z := by
  induction hxy generalizing z with
  | @immediate x y hdirect =>
      rcases (isImmediate_true_iff hx.isFloat_eq hy.isFloat_eq).1 hdirect with rfl | ⟨s, hs, hs'⟩
      · exact hyz
      · cases hyz with
        | immediate hdirect' =>
            rcases (isImmediate_true_iff hy.isFloat_eq hz.isFloat_eq).1 hdirect' with
              rfl | ⟨t, ht, ht'⟩
            · exact .immediate hdirect
            · rw [hs'] at ht
              cases ht
              exact .immediate
                ((isImmediate_true_iff hx.isFloat_eq hz.isFloat_eq).2 (.inr ⟨s, hs, ht'⟩))
        | items hnests => simp [hnests.scalar?_eq_none] at hs'
        | entries _ hnests => simp [hnests.scalar?_eq_none] at hs'
  | @items x y a b hnests hlength hitems ih =>
      rcases hyz.eq_or_nests hy hz hnests.scalar?_eq_none_right with rfl | ⟨parts, hnests'⟩
      · exact .items hnests hlength hitems
      by_cases hxz : x = z
      · exact hxz ▸ matches_refl h x
      obtain ⟨c, rfl, hparts⟩ := hnests.behind_items hnests'
      have hac : h.Nests x z (.items a c) := ⟨hxz, hparts⟩
      have hab : List.Forall₂ (fun u v => ∀ w, h.FloatFree w → h.Matches v w → h.Matches u w)
          a b := by
        refine List.forall₂_iff_zip.2 ⟨hlength, fun {u v} huv w hw hvw => ?_⟩
        obtain ⟨hu, hv⟩ := List.of_mem_zip huv
        exact ih u v huv (hx.items hnests u hu) (hy.items hnests.symm_items v hv) hw hvw
      have hbc : List.Forall₂ (fun v w => h.FloatFree w ∧ h.Matches v w) b c := by
        have hmatches := hnests'.matches_items_iff.1 hyz
        refine List.forall₂_iff_zip.2 ⟨hmatches.length_eq, fun {v w} hvw => ?_⟩
        exact ⟨hz.items hnests'.symm_items w (List.of_mem_zip hvw).2, List.forall₂_zip hmatches hvw⟩
      exact hac.matches_items_iff.2
        (List.Forall₂.comp hab hbc fun u v w huv hvw => huv w hvw.1 hvw.2)
  | @entries x y a b like hnests hlength hlike hkeys hvalues ihkeys ihvalues =>
      rcases hyz.eq_or_nests hy hz hnests.scalar?_eq_none_right with rfl | ⟨parts, hnests'⟩
      · exact .entries like hnests hlength hlike hkeys hvalues
      by_cases hxz : x = z
      · exact hxz ▸ matches_refl h x
      obtain ⟨c, rfl, hparts⟩ := hnests.behind_entries hnests'
      have hac : h.Nests x z (.entries a c) := ⟨hxz, hparts⟩
      obtain ⟨hlength', hentries⟩ := hnests'.matches_entries_iff.1 hyz
      refine hac.matches_entries_iff.2 ⟨hlength.trans hlength', fun e he => ?_⟩
      obtain ⟨g, hg, hkey, hvalue⟩ := hentries (like e) (hlike e he)
      have hxe := hx.entries hnests e he
      have hye := hy.entries hnests.symm_entries (like e) (hlike e he)
      have hzg := hz.entries hnests'.symm_entries g hg
      exact ⟨g, hg, ihkeys e he hxe.1 hye.1 hzg.1 hkey, ihvalues e he hxe.2 hye.2 hzg.2 hvalue⟩

/-! ### Symmetry -/

/-- Rows match the other way if their items do. -/
theorem Nests.matches_back
    {a b : List Ref}
    (hxy : h.Nests x y (.items a b))
    (hlength : a.length = b.length)
    (hitems : ∀ u v, (u, v) ∈ a.zip b → h.Matches v u) :
    h.Matches y x := by
  refine hxy.symm_items.matches_items_iff.2 (List.Forall₂.flip ?_)
  exact List.forall₂_iff_zip.2 ⟨hlength, hitems _ _⟩

/-- Where no dictionary of the first value repeats itself, matching goes both ways. -/
theorem Matches.symm
    (hx : h.FloatFree x)
    (hy : h.FloatFree y)
    (hxy : h.Matches x y)
    (hrepeats : ∀ r, h.Inside x r → ¬h.Repeats r) :
    h.Matches y x := by
  induction hxy with
  | immediate hdirect =>
      exact .immediate (isImmediate_true_comm hx.isFloat_eq hy.isFloat_eq hdirect)
  | @items x y a b hnests hlength hitems ih =>
      refine hnests.matches_back hlength fun u v huv => ?_
      obtain ⟨hu, hv⟩ := List.of_mem_zip huv
      refine ih u v huv (hx.items hnests u hu) (hy.items hnests.symm_items v hv) fun r hr => ?_
      exact hrepeats r (hr.of_compared (by rwa [hnests.compared_items.1]))
  | @entries x y a b like hnests hlength hlike hkeys hvalues ihkeys ihvalues =>
      obtain ⟨hread, -⟩ := hnests.read_entries
      have hback : ∀ e ∈ a, h.MatchesEntry (like e) e := by
        intro e he
        have hparts := mem_compared_dict he
        rw [← hread] at hparts
        have hxe := hx.entries hnests e he
        have hye := hy.entries hnests.symm_entries (like e) (hlike e he)
        exact ⟨ihkeys e he hxe.1 hye.1 fun r hr => hrepeats r (hr.of_compared hparts.1),
          ihvalues e he hxe.2 hye.2 fun r hr => hrepeats r (hr.of_compared hparts.2)⟩
      -- Two entries with one like would match each other.
      have hnodup : (a.map like).Nodup := by
        refine List.pairwise_map.2 (List.pairwise_iff_forall_sublist.2 fun {e f} hsub heq => ?_)
        have he : e ∈ a := hsub.subset (by simp)
        have hf : f ∈ a := hsub.subset (by simp)
        have hxe := hx.entries hnests e he
        have hxf := hx.entries hnests f hf
        have hye := hy.entries hnests.symm_entries (like e) (hlike e he)
        have hback' := hback f hf
        rw [← heq] at hback'
        exact hrepeats x .refl ⟨a, hread, e, f, hsub,
          (hkeys e he).trans hxe.1 hye.1 hxf.1 hback'.1,
          (hvalues e he).trans hxe.2 hye.2 hxf.2 hback'.2⟩
      refine hnests.symm_entries.matches_entries_iff.2 ⟨hlength.symm, fun g hg => ?_⟩
      obtain ⟨e, he, rfl⟩ := List.exists_of_nodup_map hnodup hlike hlength g hg
      exact ⟨e, he, hback e he⟩

/-- A true comparison is true the other way as well, or overlooks something. -/
theorem Matches.symm_iff
    (hx : h.FloatFree x)
    (hy : h.FloatFree y)
    (hxy : h.Matches x y) :
    h.Matches y x ↔ ¬h.Overlooks x y := by
  constructor
  · intro hyx hoverlooks
    induction hoverlooks with
    | entry hnests hf hmissing =>
        obtain ⟨e, he, hmatches⟩ := (hnests.symm_entries.matches_entries_iff.1 hyx).2 _ hf
        exact hmissing e he hmatches
    | @item x y u v a b hnests huv _ ih =>
        obtain ⟨hu, hv⟩ := List.of_mem_zip huv
        exact ih (hx.items hnests u hu) (hy.items hnests.symm_items v hv)
          (List.forall₂_zip (hnests.matches_items_iff.1 hxy) huv)
          (List.forall₂_zip (List.Forall₂.flip (hnests.symm_items.matches_items_iff.1 hyx)) huv)
  · intro hnot
    induction hxy with
    | immediate hdirect =>
        exact .immediate (isImmediate_true_comm hx.isFloat_eq hy.isFloat_eq hdirect)
    | @items x y a b hnests hlength hitems ih =>
        refine hnests.matches_back hlength fun u v huv => ?_
        obtain ⟨hu, hv⟩ := List.of_mem_zip huv
        exact ih u v huv (hx.items hnests u hu) (hy.items hnests.symm_items v hv)
          fun hoverlooks => hnot (.item hnests huv hoverlooks)
    | @entries x y a b like hnests hlength hlike hkeys hvalues =>
        refine hnests.symm_entries.matches_entries_iff.2 ⟨hlength.symm, fun g hg => ?_⟩
        by_contra hmissing
        exact hnot (.entry hnests hg fun e he hmatches => hmissing ⟨e, he, hmatches⟩)

/-- What a true comparison overlooks is beside an entry that its first value repeats. -/
theorem Matches.exists_repeats
    (hx : h.FloatFree x)
    (hy : h.FloatFree y)
    (hxy : h.Matches x y)
    (hoverlooks : h.Overlooks x y) :
    ∃ r, h.Inside x r ∧ h.Repeats r := by
  by_contra hnone
  have hyx := hxy.symm hx hy fun r hr hrepeats => hnone ⟨r, hr, hrepeats⟩
  exact (hxy.symm_iff hx hy).1 hyx hoverlooks

/-- Two values compared both ways come to one outcome exactly if neither comparison is true and
overlooks something; and one of which this holds has a dictionary inside its first value that
repeats itself. -/
theorem equal_comm_iff
    {outcome reversed : Bool}
    (hx : h.FloatFree x)
    (hy : h.FloatFree y)
    (hxy : h.equal x y = .ok outcome)
    (hyx : h.equal y x = .ok reversed) :
    (outcome = reversed ↔
        ¬(outcome = true ∧ h.Overlooks x y) ∧ ¬(reversed = true ∧ h.Overlooks y x)) ∧
      (outcome = true → h.Overlooks x y → ∃ r, h.Inside x r ∧ h.Repeats r) ∧
      (reversed = true → h.Overlooks y x → ∃ r, h.Inside y r ∧ h.Repeats r) := by
  have houtcome := outcome_iff_of_equal hxy
  have hreversed := outcome_iff_of_equal hyx
  refine ⟨?_, fun htrue => (houtcome.1 htrue).exists_repeats hx hy,
    fun htrue => (hreversed.1 htrue).exists_repeats hy hx⟩
  rw [Bool.eq_iff_iff, houtcome, hreversed]
  constructor
  · intro hiff
    exact ⟨fun ⟨hmatches, hoverlooks⟩ =>
        (hmatches.symm_iff hx hy).1 (hiff.1 hmatches) hoverlooks,
      fun ⟨hmatches, hoverlooks⟩ => (hmatches.symm_iff hy hx).1 (hiff.2 hmatches) hoverlooks⟩
  · rintro ⟨hnot, hnot'⟩
    exact ⟨fun hmatches => (hmatches.symm_iff hx hy).2 fun ho => hnot ⟨hmatches, ho⟩,
      fun hmatches => (hmatches.symm_iff hy hx).2 fun ho => hnot' ⟨hmatches, ho⟩⟩

/-! ### A repeated entry -/

/-- Two dictionaries of two entries: one has `a` as 1 twice, the other has `a` as 1 and `b`
as 2. -/
def repeatedEntry : Heap :=
  ⟨#[.str "a", .int 1, .str "a", .int 1, .dict [(0, 1), (2, 3)],
    .str "a", .int 1, .str "b", .int 2, .dict [(5, 6), (7, 8)]]⟩

theorem floatFree_repeatedEntry
    (x : Ref) :
    repeatedEntry.FloatFree x :=
  floatFree_of_cells (by simp [repeatedEntry, Value.isFloat]) x

/-- A dictionary that has an entry twice overlooks one of the other. -/
theorem equal_comm_iff_repeated :
    repeatedEntry.Overlooks 4 9 ∧ ∃ r, repeatedEntry.Inside 4 r ∧ repeatedEntry.Repeats r := by
  have hxy : repeatedEntry.equal 4 9 = .ok true := equal_of_limited (by rfl)
  have hyx : repeatedEntry.equal 9 4 = .ok false := equal_of_limited (by rfl)
  obtain ⟨hagree, hrepeats, -⟩ := equal_comm_iff (floatFree_repeatedEntry 4)
    (floatFree_repeatedEntry 9) hxy hyx
  have hoverlooks : repeatedEntry.Overlooks 4 9 := by
    by_contra hnone
    exact absurd (hagree.2 ⟨fun h => hnone h.2, fun h => absurd h.1 (by decide)⟩) (by decide)
  exact ⟨hoverlooks, hrepeats rfl hoverlooks⟩

/-- A dictionary that holds an entry twice equals another that does not equal it. -/
theorem repeated_equals_wider :
    repeatedEntry.FloatFree 4 ∧ repeatedEntry.FloatFree 9 ∧
      repeatedEntry.equal 4 9 = .ok true ∧ repeatedEntry.equal 9 4 = .ok false :=
  ⟨floatFree_repeatedEntry 4, floatFree_repeatedEntry 9, equal_of_limited (by rfl),
    equal_of_limited (by rfl)⟩

end Heap
end LiveProbe
