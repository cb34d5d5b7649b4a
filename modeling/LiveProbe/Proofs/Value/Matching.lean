import Mathlib.Data.List.Forall2
import Mathlib.Logic.Relation
import Mathlib.Tactic.Choose
import LiveProbe.Proofs.Value.Plain

/-!
# What equality decides

The outcome of a comparison, told without the order of its questions.

**Specification.**  A value *matches* another (`Heap.Matches`) if they are of one identity or
equal scalars, if the items of the one match those of the other place by place, or if there
are as many entries in both and each of the one matches some entry of the other.

**Results.**
* `Settles.outcome_iff`: a comparison that ends has the outcome true for values that match,
  and false for others.
* `outcome_iff_of_equal`: so has equality wherever it has an outcome.
-/

namespace LiveProbe

/-- The values that are compared when a value is compared by its parts. -/
def Value.compared : Value → List Ref
  | .list items | .tuple items => items
  | .dict entries => entries.flatMap fun e => [e.1, e.2]
  | _ => []

/-- What a value is compared by if not by its parts. A truth value counts as an integer. -/
inductive Scalar
  | null
  | integer (value : Int64)
  | str (value : String)
  | bytes (value : List UInt8)

/-- Null, truth values, integers, strings and bytes are scalars. -/
def Value.scalar? : Value → Option Scalar
  | .none => some .null
  | .bool value => some (.integer (bit value))
  | .int value => some (.integer value)
  | .str value => some (.str value)
  | .bytes value => some (.bytes value)
  | _ => Option.none

/-- The value is a floating-point number. -/
def Value.isFloat : Value → Bool
  | .float _ => true
  | _ => false

namespace Heap

variable (h : Heap)

/-- A value is met when another is compared to the bottom. -/
def Inside (x r : Ref) : Prop := Relation.ReflTransGen (fun x r => r ∈ (h.read x).compared) x r

/-- No floating-point number is met. -/
def FloatFree (x : Ref) : Prop := ∀ r, h.Inside x r → (h.read r).isFloat = false

/-- The outcome of a comparison is true. -/
inductive Matches : Ref → Ref → Prop
  | immediate {x y : Ref} : h.IsImmediate x y true → Matches x y
  | items {x y : Ref} {a b : List Ref} :
      h.Nests x y (.items a b) → a.length = b.length →
      (∀ u v, (u, v) ∈ a.zip b → Matches u v) → Matches x y
  | entries {x y : Ref} {a b : List (Ref × Ref)} (like : Ref × Ref → Ref × Ref) :
      h.Nests x y (.entries a b) → a.length = b.length →
      (∀ e ∈ a, like e ∈ b) →
      (∀ e ∈ a, Matches e.1 (like e).1) →
      (∀ e ∈ a, Matches e.2 (like e).2) → Matches x y

/-- The key of an entry matches that of another, and the value its value. -/
def MatchesEntry (e f : Ref × Ref) : Prop := h.Matches e.1 f.1 ∧ h.Matches e.2 f.2

variable {h} {x y : Ref} {outcome : Bool}

/-! ### Scalars -/

theorem sameScalar_iff
    {v w : Value}
    (hv : v.isFloat = false)
    (hw : w.isFloat = false) :
    sameScalar v w = true ↔ ∃ s, v.scalar? = some s ∧ w.scalar? = some s := by
  cases v with
  | float => cases hv
  | _ =>
      cases w with
      | float => cases hw
      | _ => simp [sameScalar, Value.scalar?, Value.number?, Number.same] <;> exact eq_comm

theorem parts?_of_scalar
    {v w : Value} {s : Scalar}
    (hv : v.scalar? = some s) :
    parts? v w = none := by
  cases v <;> simp_all [parts?, Value.scalar?]

/-- Without looking into parts, values are equal if they are one value or equal scalars. -/
theorem isImmediate_true_iff
    (hx : (h.read x).isFloat = false)
    (hy : (h.read y).isFloat = false) :
    h.IsImmediate x y true ↔
      x = y ∨ ∃ s, (h.read x).scalar? = some s ∧ (h.read y).scalar? = some s := by
  constructor
  · rintro (⟨hxy, -⟩ | ⟨-, -, hsame⟩)
    · exact .inl hxy
    · exact .inr ((sameScalar_iff hx hy).1 hsame.symm)
  · intro hxy
    by_cases heq : x = y
    · exact .inl ⟨heq, rfl⟩
    · obtain ⟨s, hs, hs'⟩ := hxy.resolve_left heq
      exact .inr ⟨heq, parts?_of_scalar hs, ((sameScalar_iff hx hy).2 ⟨s, hs, hs'⟩).symm⟩

theorem isImmediate_true_comm
    (hx : (h.read x).isFloat = false)
    (hy : (h.read y).isFloat = false)
    (hxy : h.IsImmediate x y true) :
    h.IsImmediate y x true := by
  refine (isImmediate_true_iff hy hx).2 ?_
  rcases (isImmediate_true_iff hx hy).1 hxy with heq | ⟨s, hs, hs'⟩
  · exact .inl heq.symm
  · exact .inr ⟨s, hs', hs⟩

/-- A heap without such numbers has none inside any value. -/
theorem floatFree_of_cells
    (hcells : ∀ v ∈ h.cells, v.isFloat = false)
    (x : Ref) :
    h.FloatFree x := by
  intro r _
  rw [read, Array.getD_eq_getD_getElem?]
  cases hr : h.cells[r]? with
  | none => rfl
  | some v =>
      exact hcells v (Array.mem_of_getElem? hr)

/-! ### Parts -/

theorem parts?_eq_items
    {v w : Value} {a b : List Ref}
    (hparts : parts? v w = some (.items a b)) :
    v.compared = a ∧ w.compared = b := by
  cases v <;> cases w <;> simp_all [parts?, Value.compared]

theorem parts?_eq_entries
    {v w : Value} {a b : List (Ref × Ref)}
    (hparts : parts? v w = some (.entries a b)) :
    v = .dict a ∧ w = .dict b := by
  cases v <;> cases w <;> simp_all [parts?]

theorem Nests.compared_items
    {a b : List Ref}
    (hxy : h.Nests x y (.items a b)) :
    (h.read x).compared = a ∧ (h.read y).compared = b :=
  parts?_eq_items hxy.2

theorem Nests.read_entries
    {a b : List (Ref × Ref)}
    (hxy : h.Nests x y (.entries a b)) :
    h.read x = .dict a ∧ h.read y = .dict b :=
  parts?_eq_entries hxy.2

theorem mem_compared_dict
    {entries : List (Ref × Ref)} {e : Ref × Ref}
    (he : e ∈ entries) :
    e.1 ∈ (Value.dict entries).compared ∧ e.2 ∈ (Value.dict entries).compared :=
  ⟨List.mem_flatMap.2 ⟨e, he, by simp⟩, List.mem_flatMap.2 ⟨e, he, by simp⟩⟩

theorem Inside.of_compared
    {r : Ref}
    (hr : r ∈ (h.read x).compared)
    {s : Ref}
    (hs : h.Inside r s) :
    h.Inside x s :=
  .head hr hs

/-! ### Ways to match -/

/-- What is decided at once has no parts to compare. -/
theorem IsImmediate.not_nests
    {parts : Parts}
    (hxy : h.IsImmediate x y outcome) :
    ¬h.Nests x y parts := by
  rintro ⟨hne, hparts⟩
  obtain ⟨rfl, -⟩ | ⟨-, hnone, -⟩ := hxy
  · exact hne rfl
  · rw [hnone] at hparts
    cases hparts

theorem IsImmediate.unique
    {other : Bool}
    (hxy : h.IsImmediate x y outcome)
    (hother : h.IsImmediate x y other) :
    outcome = other := by
  obtain ⟨rfl, rfl⟩ | ⟨hne, -, rfl⟩ := hxy
  · obtain ⟨-, rfl⟩ | ⟨hne, -⟩ := hother
    · rfl
    · exact absurd rfl hne
  · obtain ⟨rfl, -⟩ | ⟨-, -, rfl⟩ := hother
    · exact absurd rfl hne
    · rfl

theorem matches_refl
    (h : Heap) (x : Ref) :
    h.Matches x x :=
  .immediate (.inl ⟨rfl, rfl⟩)

theorem Nests.unique
    {parts other : Parts}
    (hxy : h.Nests x y parts)
    (hother : h.Nests x y other) :
    parts = other := by
  have hparts := hxy.2
  rw [hother.2] at hparts
  exact (Option.some.inj hparts).symm

theorem IsImmediate.matches_iff
    (hxy : h.IsImmediate x y outcome) :
    h.Matches x y ↔ outcome = true := by
  constructor
  · intro hmatches
    cases hmatches with
    | immediate hother => exact hxy.unique hother
    | items hnests => exact absurd hnests hxy.not_nests
    | entries _ hnests => exact absurd hnests hxy.not_nests
  · rintro rfl
    exact .immediate hxy

theorem Nests.matches_items_iff
    {a b : List Ref}
    (hxy : h.Nests x y (.items a b)) :
    h.Matches x y ↔ List.Forall₂ h.Matches a b := by
  constructor
  · intro hmatches
    cases hmatches with
    | immediate hdirect => exact absurd hxy hdirect.not_nests
    | items hnests hlength hitems =>
        cases hxy.unique hnests
        exact List.forall₂_iff_zip.2 ⟨hlength, hitems _ _⟩
    | entries _ hnests => cases hxy.unique hnests
  · intro hitems
    exact .items hxy hitems.length_eq fun u v => List.forall₂_zip hitems

/-- Dictionaries match if they have as many entries and each of the first matches one of the
second. -/
theorem Nests.matches_entries_iff
    {a b : List (Ref × Ref)}
    (hxy : h.Nests x y (.entries a b)) :
    h.Matches x y ↔ a.length = b.length ∧ ∀ e ∈ a, ∃ f ∈ b, h.MatchesEntry e f := by
  constructor
  · intro hmatches
    cases hmatches with
    | immediate hdirect => exact absurd hxy hdirect.not_nests
    | items hnests => cases hxy.unique hnests
    | entries like hnests hlength hlike hkeys hvalues =>
        cases hxy.unique hnests
        exact ⟨hlength, fun e he => ⟨like e, hlike e he, hkeys e he, hvalues e he⟩⟩
  · rintro ⟨hlength, hentries⟩
    choose! like hlike hmatches using hentries
    exact .entries like hxy hlength hlike (fun e he => (hmatches e he).1) fun e he =>
      (hmatches e he).2

/-! ### Answers of inquiries -/

section Inquiries

variable {out : Ref → Ref → Bool → Prop} {T : Ref → Ref → Prop}

/-- An inquiry into items answers whether all are paired. -/
theorem yields_pairwise
    {a b : List Ref}
    (hout : ∀ x y outcome, out x y outcome → (outcome = true ↔ T x y))
    (hlength : a.length = b.length)
    (hyields : (Inquiry.pairwise a b).Yields out outcome) :
    outcome = true ↔ List.Forall₂ T a b := by
  induction a generalizing b with
  | nil =>
      cases List.length_eq_zero_iff.1 hlength.symm
      cases hyields
      simp
  | cons x a ih =>
      cases b with
      | nil => cases hlength
      | cons y b =>
          cases hyields with
          | @ask _ _ _ equal _ hequal hnext =>
              rw [List.forall₂_cons, ← hout x y equal hequal]
              cases equal with
              | true => simpa using ih (Nat.succ.inj hlength) hnext
              | false =>
                  cases hnext
                  simp

/-- The search for an entry goes on as the list holds one or not. -/
theorem yields_hasEntry
    {found missing : Inquiry} {key value : Ref} {entries : List (Ref × Ref)}
    (hout : ∀ x y outcome, out x y outcome → (outcome = true ↔ T x y))
    (hyields : (Inquiry.hasEntry found missing key value entries).Yields out outcome) :
    (∃ f ∈ entries, T key f.1 ∧ T value f.2) ∧ found.Yields out outcome ∨
      (¬∃ f ∈ entries, T key f.1 ∧ T value f.2) ∧ missing.Yields out outcome := by
  induction entries with
  | nil => exact .inr ⟨by simp, hyields⟩
  | cons f entries ih =>
      -- What the rest of the list comes to decides, once its first entry is another one.
      have hpass : ¬(T key f.1 ∧ T value f.2) →
          (Inquiry.hasEntry found missing key value entries).Yields out outcome →
          (∃ g ∈ f :: entries, T key g.1 ∧ T value g.2) ∧ found.Yields out outcome ∨
            (¬∃ g ∈ f :: entries, T key g.1 ∧ T value g.2) ∧ missing.Yields out outcome := by
        intro hother hrest
        simpa [hother] using ih hrest
      cases hyields with
      | @ask _ _ _ equal _ hkey hnext =>
          have hkey := hout _ _ equal hkey
          cases equal with
          | false => exact hpass (fun hboth => by simp [hboth.1] at hkey) hnext
          | true =>
              cases hnext with
              | @ask _ _ _ equal _ hvalue hnext =>
                  have hvalue := hout _ _ equal hvalue
                  cases equal with
                  | false => exact hpass (fun hboth => by simp [hboth.2] at hvalue) hnext
                  | true =>
                      exact .inl ⟨⟨f, List.mem_cons_self, hkey.1 rfl, hvalue.1 rfl⟩, hnext⟩

/-- An inquiry into entries answers whether each finds a partner. -/
theorem yields_entrywise
    {a b : List (Ref × Ref)}
    (hout : ∀ x y outcome, out x y outcome → (outcome = true ↔ T x y))
    (hyields : (Inquiry.entrywise a b).Yields out outcome) :
    outcome = true ↔ ∀ e ∈ a, ∃ f ∈ b, T e.1 f.1 ∧ T e.2 f.2 := by
  induction a with
  | nil =>
      cases hyields
      simp
  | cons e a ih =>
      rw [List.forall_mem_cons]
      obtain ⟨hfound, hrest⟩ | ⟨hmissing, hrest⟩ := yields_hasEntry hout hyields
      · simpa [hfound] using ih hrest
      · cases hrest
        simp [hmissing]

theorem yields_of_plain
    {fuel : Nat} {inquiry : Inquiry}
    (hrun : inquiry.run (h.plain fuel) = some outcome) :
    inquiry.Yields (fun x y outcome => h.plain fuel x y = some outcome) outcome := by
  induction inquiry with
  | answer equal =>
      cases hrun
      exact .answer _
  | ask x y next ih =>
      obtain ⟨equal, hequal, hnext⟩ := Option.bind_eq_some_iff.1 hrun
      exact .ask hequal (ih equal hnext)

end Inquiries

/-! ### Outcomes -/

/-- The plain comparison answers whether the values match, by induction on its steps. -/
theorem outcome_iff_of_plain
    {fuel : Nat}
    (hplain : h.plain fuel x y = some outcome) :
    outcome = true ↔ h.Matches x y := by
  induction fuel generalizing x y outcome with
  | zero => cases hplain
  | succ fuel ih =>
      rcases isImmediate_or_nests h x y with ⟨direct, hxy⟩ | ⟨parts, hxy⟩
      · rw [hxy.plain] at hplain
        rw [hxy.matches_iff, Option.some.inj hplain]
      · rw [hxy.plain] at hplain
        have hyields := yields_of_plain hplain
        have hout : ∀ x y outcome, h.plain fuel x y = some outcome →
            (outcome = true ↔ h.Matches x y) := fun _ _ _ hasked => ih hasked
        cases parts with
        | items a b =>
            rw [hxy.matches_items_iff]
            rw [Parts.inquiry] at hyields
            split at hyields
            · next hlength =>
                exact yields_pairwise hout hlength hyields
            · next hlength =>
                cases hyields
                simpa using fun hitems => hlength (List.Forall₂.length_eq hitems)
        | entries a b =>
            rw [hxy.matches_entries_iff]
            rw [Parts.inquiry] at hyields
            split at hyields
            · next hlength =>
                rw [yields_entrywise hout hyields]
                exact (and_iff_right hlength).symm
            · next hlength =>
                cases hyields
                simp [hlength]

theorem Settles.outcome_iff
    (hsettles : h.Settles x y outcome) :
    outcome = true ↔ h.Matches x y := by
  obtain ⟨fuel, hplain⟩ := hsettles
  exact outcome_iff_of_plain hplain

theorem settles_of_equal
    (hequal : h.equal x y = .ok outcome) :
    h.Settles x y outcome := by
  have hends : Ends (fun p => h.Settles x y p.1 ∧ h.IsSound p.2) (h.Meets [] x y)
      ((h.equalWithin Limits.valueNesting [] x y).run ∅) :=
    equalWithin_ends (by simp) (isSound_empty h)
  rw [equal, StateT.run'_eq] at hequal
  generalize (h.equalWithin Limits.valueNesting [] x y).run ∅ = ended at hends hequal
  cases hends with
  | ok hp =>
      cases hequal
      exact hp.1
  | limit => cases hequal

/-- Equality with an outcome answers whether the values match. -/
theorem outcome_iff_of_equal
    (hequal : h.equal x y = .ok outcome) :
    outcome = true ↔ h.Matches x y :=
  (settles_of_equal hequal).outcome_iff

/-- What is found without memory is the outcome. -/
theorem equal_of_limited
    (hlimited : h.limited Limits.valueNesting [] x y = .ok outcome) :
    h.equal x y = .ok outcome := by
  obtain ⟨e, hrun, -⟩ := equalWithin_of_limited (isSound_empty h) hlimited
  rw [equal, StateT.run'_eq, hrun]
  rfl

theorem IsImmediate.equal
    (hxy : h.IsImmediate x y outcome) :
    h.equal x y = .ok outcome :=
  equal_of_limited (hxy.limited _ _)

theorem exists_equal_of_scalar
    {s : Scalar}
    (hx : (h.read x).scalar? = some s)
    (y : Ref) :
    ∃ outcome, h.equal x y = .ok outcome := by
  by_cases hxy : x = y
  · exact ⟨true, IsImmediate.equal (.inl ⟨hxy, rfl⟩)⟩
  · exact ⟨_, IsImmediate.equal (.inr ⟨hxy, parts?_of_scalar hx, rfl⟩)⟩

end Heap
end LiveProbe
