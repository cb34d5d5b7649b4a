import Mathlib.Data.List.Nodup
import Mathlib.Data.List.Perm.Subperm

/-!
# Lists

Facts about lists that hold for any items.

**Results.**
* `takeWhile_run`: a run of items ends where another item stands.
* `filter_flatMap_of_forall`: a filter that takes each of several rows as a whole or not at all.
* `Forall₂.comp`, `Forall₂.exists_mem`, `Forall₂.map_eq`: lists that are related item by item.
-/

namespace List

variable {α β γ : Type}

/-! ### Runs -/

section Runs

variable {p : α → Bool} {run tail : List α}

/-- Where the text behind does not go on with it, a run is taken as if it stood alone. -/
theorem takeWhile_append_of_stop
    (htail : ∀ d ∈ tail.head?, p d = false) :
    (run ++ tail).takeWhile p = run.takeWhile p := by
  induction run with
  | nil =>
      cases tail with
      | nil => rfl
      | cons d tail => simp [htail d rfl]
  | cons c run ih => simp only [cons_append, takeWhile_cons, ih]

theorem dropWhile_append_of_stop
    (htail : ∀ d ∈ tail.head?, p d = false) :
    (run ++ tail).dropWhile p = run.dropWhile p ++ tail := by
  induction run with
  | nil =>
      cases tail with
      | nil => rfl
      | cons d tail => simp [htail d rfl]
  | cons c run ih =>
      simp only [cons_append, dropWhile_cons, ih]
      split <;> rfl

/-- A run of items ends where another item stands. -/
theorem takeWhile_run
    (hrun : ∀ c ∈ run, p c = true)
    (htail : ∀ c ∈ tail.head?, p c = false) :
    (run ++ tail).takeWhile p = run ∧ (run ++ tail).dropWhile p = tail := by
  have hstop : tail.takeWhile p = [] ∧ tail.dropWhile p = tail := by
    cases tail with
    | nil => exact ⟨rfl, rfl⟩
    | cons d tail => simp [htail d rfl]
  rw [takeWhile_append_of_pos hrun, dropWhile_append_of_pos hrun, hstop.1, hstop.2]
  exact ⟨append_nil run, rfl⟩

end Runs

/-! ### Filters and maps -/

/-- What a filter takes of several rows, where it takes all or none of each. -/
theorem filter_flatMap_of_forall
    {l : List α} {f : α → List β} {p : β → Bool} {q : α → Bool}
    (h : ∀ i ∈ l, ∀ x ∈ f i, p x = q i) :
    (l.flatMap f).filter p = (l.filter q).flatMap f := by
  induction l with
  | nil => rfl
  | cons i l ih =>
      rw [forall_mem_cons] at h
      rw [flatMap_cons, filter_append, ih h.2, filter_cons]
      cases hq : q i with
      | true =>
          have hall : (f i).filter p = f i := filter_eq_self.2 fun x hx => by rw [h.1 x hx, hq]
          rw [hall, if_pos rfl, flatMap_cons]
      | false =>
          have hnone : (f i).filter p = [] :=
            filter_eq_nil_iff.2 fun x hx => by simp [h.1 x hx, hq]
          rw [hnone, if_neg (by simp), nil_append]

/-- The last value comes from the rest if that has any, else from the first. -/
theorem getLast?_filterMap_cons
    (f : α → Option β) (a : α) (l : List α) :
    ((a :: l).filterMap f).getLast? = ((l.filterMap f).getLast?).or (f a) := by
  cases ha : f a with
  | none => simp [ha]
  | some b =>
      rw [filterMap_cons, ha, getLast?_cons]
      cases (l.filterMap f).getLast? <;> rfl

/-- A partial function that is total on a list maps all of it. -/
theorem mapM_eq_some
    {f : α → Option β} {g : α → β} {l : List α}
    (h : ∀ a ∈ l, f a = some (g a)) :
    l.mapM f = some (l.map g) := by
  induction l with
  | nil => rfl
  | cons a l ih =>
      rw [forall_mem_cons] at h
      rw [mapM_cons, h.1, ih h.2]
      rfl

/-- As many different things as there are places fill all of them. -/
theorem exists_of_nodup_map
    {f : α → β} {l : List α} {places : List β}
    (hnodup : (l.map f).Nodup)
    (hsub : ∀ e ∈ l, f e ∈ places)
    (hlength : l.length = places.length) :
    ∀ g ∈ places, ∃ e ∈ l, f e = g := by
  have hperm : (l.map f).Perm places :=
    (hnodup.subperm (forall_mem_map.2 hsub)).perm_of_length_le (by simp [hlength])
  exact fun g hg => mem_map.1 (hperm.mem_iff.2 hg)

/-! ### Lists that are related item by item -/

section Related

variable {R : α → β → Prop} {xs : List α} {ys : List β}

theorem Forall₂.comp
    {S : β → γ → Prop} {T : α → γ → Prop} {zs : List γ}
    (hR : Forall₂ R xs ys) (hS : Forall₂ S ys zs) (hRST : ∀ x y z, R x y → S y z → T x z) :
    Forall₂ T xs zs := by
  induction hR generalizing zs with
  | nil =>
      cases hS
      exact .nil
  | cons hxy _ ih =>
      cases hS with
      | cons hyz hS => exact .cons (hRST _ _ _ hxy hyz) (ih hS)

/-- A member of one list has its partner in the other. -/
theorem Forall₂.exists_mem
    (h : Forall₂ R xs ys)
    {x : α}
    (hx : x ∈ xs) :
    ∃ y ∈ ys, R x y := by
  induction h with
  | nil => cases hx
  | cons hxy _ ih =>
      rcases mem_cons.1 hx with rfl | hx
      · exact ⟨_, mem_cons_self, hxy⟩
      · obtain ⟨y, hy, hxy⟩ := ih hx
        exact ⟨y, mem_cons_of_mem _ hy, hxy⟩

/-- Lists paired by what two functions have in common are mapped to the same. -/
theorem Forall₂.map_eq
    {f : α → γ} {g : β → γ}
    (h : Forall₂ R xs ys)
    (hfg : ∀ x y, R x y → f x = g y) :
    xs.map f = ys.map g := by
  induction h with
  | nil => rfl
  | cons hxy _ ih => rw [map_cons, map_cons, hfg _ _ hxy, ih]

end Related

end List
