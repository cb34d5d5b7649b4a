import LiveProbe.Value.Equality

/-!
# Equality without memory

The comparison of values that keeps outcomes agrees with one that keeps none.

**Inquiries.**  Which pairs the comparison of two containers asks for, in which order and up
to which answer, is the same whatever answers the questions.  It is an `Inquiry`, and each
comparison runs it in its own way.

**Specification.**  The plain comparison (`Heap.plain`) looks into every pair again.  It need
not end, so it is given fuel; with an outcome it *settles* (`Heap.Settles`).  The limited
comparison (`Heap.limited`) does the same with the two checks that keep it finite.

**Invariant.**  All outcomes that are kept are settled (`Heap.IsSound`).  What is settled does
not depend on the pairs around it, so an outcome may serve anywhere.

**Results.**
* `equalWithin_ends`: a comparison settles its pair and keeps the table sound, or meets a pair
  that stops it.
* `equalWithin_of_limited`: where the limited comparison has an outcome, it is found.
* `equal_agrees_with_plain`: both for whole comparisons.
-/

namespace LiveProbe

/-- Questions whether values are equal, one after another, with an answer in the end. -/
inductive Inquiry
  | answer (outcome : Bool)
  | ask (x y : Ref) (next : Bool → Inquiry)

namespace Inquiry

/-- Has the questions answered. -/
def run {m : Type → Type} [Monad m] (same : Ref → Ref → m Bool) : Inquiry → m Bool
  | answer outcome => return outcome
  | ask x y next => do run same (next (← same x y))

/-- Two lists of one length agree place by place. -/
def pairwise : List Ref → List Ref → Inquiry
  | x :: xs, y :: ys => ask x y fun equal => if equal then pairwise xs ys else answer false
  | _, _ => answer true

/-- Some entry has the given key and value, or none has. -/
def hasEntry (found missing : Inquiry) (key value : Ref) : List (Ref × Ref) → Inquiry
  | [] => missing
  | (k, v) :: entries =>
      ask key k fun equal =>
        if equal then
          ask value v fun equal =>
            if equal then found else hasEntry found missing key value entries
        else hasEntry found missing key value entries

/-- Every entry of the first list has its like in the second. -/
def entrywise : List (Ref × Ref) → List (Ref × Ref) → Inquiry
  | [], _ => answer true
  | (key, value) :: entries, others =>
      hasEntry (entrywise entries others) (answer false) key value others

/-- The questions have these outcomes and lead to this answer. -/
inductive Yields (out : Ref → Ref → Bool → Prop) : Inquiry → Bool → Prop
  | answer (outcome : Bool) : Yields out (.answer outcome) outcome
  | ask {x y : Ref} {next : Bool → Inquiry} {equal outcome : Bool} :
      out x y equal → Yields out (next equal) outcome → Yields out (.ask x y next) outcome

/-- With these outcomes the inquiry comes to the question for a pair. -/
inductive ComesTo (out : Ref → Ref → Bool → Prop) : Inquiry → Ref → Ref → Prop
  | here {x y : Ref} {next : Bool → Inquiry} : ComesTo out (.ask x y next) x y
  | later {x y a b : Ref} {next : Bool → Inquiry} {equal : Bool} :
      out x y equal → ComesTo out (next equal) a b → ComesTo out (.ask x y next) a b

end Inquiry

/-- What the comparison of two containers asks. -/
def Heap.Parts.inquiry : Parts → Inquiry
  | .items a b => if a.length = b.length then .pairwise a b else .answer false
  | .entries a b => if a.length = b.length then .entrywise a b else .answer false

/-! ### Comparisons as inquiries -/

section Compare

variable (same : Ref → Ref → Comparing Bool)

theorem run_pairwise
    (xs ys : List Ref) :
    (Inquiry.pairwise xs ys).run same = Comparing.pairwise same xs ys := by
  induction xs generalizing ys with
  | nil => simp [Inquiry.pairwise, Inquiry.run, Comparing.pairwise]
  | cons x xs ih =>
      cases ys with
      | nil => rfl
      | cons y ys =>
          simp only [Inquiry.pairwise, Inquiry.run, Comparing.pairwise, ← ih]
          congr 1
          funext equal
          cases equal <;> rfl

theorem run_hasEntry
    (found missing : Inquiry) (key value : Ref) (entries : List (Ref × Ref)) :
    (Inquiry.hasEntry found missing key value entries).run same = (do
      if ← Comparing.hasEntry same key value entries then found.run same
      else missing.run same) := by
  induction entries with
  | nil => simp [Inquiry.hasEntry, Comparing.hasEntry]
  | cons entry entries ih =>
      simp only [Inquiry.hasEntry, Inquiry.run, Comparing.hasEntry, bind_assoc]
      congr 1
      funext equal
      cases equal with
      | false => simpa using ih
      | true =>
          simp only [if_true, Inquiry.run, bind_assoc]
          congr 1
          funext equal
          cases equal with
          | false => simpa using ih
          | true => simp

theorem run_entrywise
    (entries others : List (Ref × Ref)) :
    (Inquiry.entrywise entries others).run same = Comparing.entrywise same entries others := by
  induction entries with
  | nil => rfl
  | cons entry entries ih =>
      simp only [Inquiry.entrywise, run_hasEntry, Comparing.entrywise, ih]
      rfl

/-- Parts are compared by having their inquiry answered. -/
theorem Heap.Parts.compare_eq_run
    (parts : Parts) :
    parts.compare same = parts.inquiry.run same := by
  cases parts with
  | items a b =>
      simp only [compare, inquiry, ← run_pairwise]
      split <;> rfl
  | entries a b =>
      simp only [compare, inquiry, ← run_entrywise]
      split <;> rfl

end Compare

namespace Heap

/-! ### Plain and limited comparison -/

/-- Compares two values and keeps no outcome. Without fuel there is none. -/
def plain (h : Heap) : Nat → Ref → Ref → Option Bool
  | 0, _, _ => none
  | fuel + 1, x, y =>
      if x = y then some true
      else
        match parts? (h.read x) (h.read y) with
        | none => some (sameScalar (h.read x) (h.read y))
        | some parts => parts.inquiry.run (h.plain fuel)

/-- Compares two values inside the pairs `active`, with room for `room` further ones, and
keeps no outcome. -/
def limited (h : Heap) (room : Nat) (active : List (Ref × Ref)) (x y : Ref) :
    Except EvalError Bool :=
  if x = y then return true
  else
    match parts? (h.read x) (h.read y) with
    | none => return sameScalar (h.read x) (h.read y)
    | some parts =>
        match room with
        | 0 => throw .recursionLimit
        | room + 1 =>
            if active.contains (x, y) then throw .recursionLimit
            else parts.inquiry.run (h.limited room ((x, y) :: active))

variable (h : Heap)

/-- The plain comparison ends with this outcome. -/
def Settles (x y : Ref) (outcome : Bool) : Prop := ∃ fuel, h.plain fuel x y = some outcome

/-- Two containers of one kind that are not the same one, with the parts to compare. -/
def Nests (x y : Ref) (parts : Parts) : Prop :=
  x ≠ y ∧ parts? (h.read x) (h.read y) = some parts

/-- Two values that are compared without a look at parts. -/
def IsImmediate (x y : Ref) (outcome : Bool) : Prop :=
  x = y ∧ outcome = true ∨
    x ≠ y ∧ parts? (h.read x) (h.read y) = none ∧ outcome = sameScalar (h.read x) (h.read y)

/-- Inside the pairs `active` the comparison of two values comes to two containers whose own
comparison is under way, or that lie inside as many pairs as there may be. -/
inductive Meets : List (Ref × Ref) → Ref → Ref → Prop
  | active {active : List (Ref × Ref)} {x y : Ref} {parts : Parts} :
      h.Nests x y parts → (x, y) ∈ active → Meets active x y
  | nested {active : List (Ref × Ref)} {x y : Ref} {parts : Parts} :
      h.Nests x y parts → Limits.valueNesting ≤ active.length → Meets active x y
  | inside {active : List (Ref × Ref)} {x y a b : Ref} {parts : Parts} :
      h.Nests x y parts → parts.inquiry.ComesTo h.Settles a b → Meets ((x, y) :: active) a b →
      Meets active x y

variable {h}

/-- Two values are decided at once or have parts to compare. -/
theorem isImmediate_or_nests
    (h : Heap) (x y : Ref) :
    (∃ outcome, h.IsImmediate x y outcome) ∨ ∃ parts, h.Nests x y parts := by
  by_cases hxy : x = y
  · exact .inl ⟨true, .inl ⟨hxy, rfl⟩⟩
  · cases hparts : parts? (h.read x) (h.read y) with
    | none => exact .inl ⟨_, .inr ⟨hxy, hparts, rfl⟩⟩
    | some parts => exact .inr ⟨parts, hxy, hparts⟩

section Pairs

variable {x y : Ref} {outcome : Bool} {parts : Parts}

/-- The plain comparison decides such values with one step. -/
theorem IsImmediate.plain
    (hxy : h.IsImmediate x y outcome)
    (fuel : Nat) :
    h.plain (fuel + 1) x y = some outcome := by
  obtain ⟨rfl, rfl⟩ | ⟨hne, hparts, rfl⟩ := hxy
  · simp [Heap.plain]
  · simp [Heap.plain, hne, hparts]

theorem IsImmediate.limited
    (hxy : h.IsImmediate x y outcome)
    (room : Nat) (active : List (Ref × Ref)) :
    h.limited room active x y = .ok outcome := by
  obtain ⟨rfl, rfl⟩ | ⟨hne, hparts, rfl⟩ := hxy
  · unfold Heap.limited
    simp [pure, Except.pure]
  · unfold Heap.limited
    simp [hne, hparts, pure, Except.pure]

/-- The comparison with a memo keeps nothing of them. -/
theorem IsImmediate.equalWithin
    (hxy : h.IsImmediate x y outcome)
    (room : Nat) (active : List (Ref × Ref)) (d : Decided) :
    (h.equalWithin room active x y).run d = .ok (outcome, d) := by
  obtain ⟨rfl, rfl⟩ | ⟨hne, hparts, rfl⟩ := hxy
  · unfold Heap.equalWithin
    simp
    rfl
  · unfold Heap.equalWithin
    simp [hne, hparts]
    rfl

theorem Nests.plain
    (hxy : h.Nests x y parts)
    (fuel : Nat) :
    h.plain (fuel + 1) x y = parts.inquiry.run (h.plain fuel) := by
  simp [Heap.plain, hxy.1, hxy.2]

theorem Nests.limited_zero
    (hxy : h.Nests x y parts)
    (active : List (Ref × Ref)) :
    h.limited 0 active x y = .error .recursionLimit := by
  simp [Heap.limited, hxy.1, hxy.2, throw, throwThe, MonadExceptOf.throw]

/-- With room they are, unless their comparison is open already. -/
theorem Nests.limited_succ
    (hxy : h.Nests x y parts)
    (room : Nat) (active : List (Ref × Ref)) :
    h.limited (room + 1) active x y =
      if (x, y) ∈ active then .error .recursionLimit
      else parts.inquiry.run (h.limited room ((x, y) :: active)) := by
  simp [Heap.limited, hxy.1, hxy.2, throw, throwThe, MonadExceptOf.throw]

/-- An outcome that was kept is taken as it is. -/
theorem Nests.equalWithin_known
    (hxy : h.Nests x y parts)
    (room : Nat) (active : List (Ref × Ref))
    {d : Decided}
    (hknown : d[(x, y)]? = some outcome) :
    (h.equalWithin room active x y).run d = .ok (outcome, d) := by
  unfold Heap.equalWithin
  simp [hxy.1, hxy.2, hknown]
  rfl

/-- Without room only what the memo knows is answered. -/
theorem Nests.equalWithin_zero
    (hxy : h.Nests x y parts)
    (active : List (Ref × Ref))
    {d : Decided}
    (hnew : d[(x, y)]? = none) :
    (h.equalWithin 0 active x y).run d = .error .recursionLimit := by
  unfold Heap.equalWithin
  simp [hxy.1, hxy.2, hnew]
  rfl

/-- A comparison that is open already is not entered again. -/
theorem Nests.equalWithin_active
    (hxy : h.Nests x y parts)
    (room : Nat)
    {active : List (Ref × Ref)} {d : Decided}
    (hnew : d[(x, y)]? = none)
    (hactive : (x, y) ∈ active) :
    (h.equalWithin (room + 1) active x y).run d = .error .recursionLimit := by
  unfold Heap.equalWithin
  simp [hxy.1, hxy.2, hnew, hactive]
  rfl

theorem Nests.equalWithin_succ
    (hxy : h.Nests x y parts)
    (room : Nat)
    {active : List (Ref × Ref)} {d : Decided}
    (hnew : d[(x, y)]? = none)
    (hactive : (x, y) ∉ active) :
    (h.equalWithin (room + 1) active x y).run d =
      ((parts.inquiry.run (h.equalWithin room ((x, y) :: active))).run d >>= fun p =>
        .ok (p.1, p.2.insert (x, y) p.1)) := by
  unfold Heap.equalWithin
  simp [hxy.1, hxy.2, hnew, hactive, Parts.compare_eq_run]
  rfl

end Pairs

/-! ### Settled outcomes -/

section Settles

variable {x y : Ref} {outcome : Bool}

/-- More answers to the questions leave the outcome of an inquiry. -/
theorem run_mono
    {same same' : Ref → Ref → Option Bool}
    (hsame : ∀ x y outcome, same x y = some outcome → same' x y = some outcome)
    (inquiry : Inquiry)
    (hrun : inquiry.run same = some outcome) :
    inquiry.run same' = some outcome := by
  induction inquiry with
  | answer equal => exact hrun
  | ask x y next ih =>
      obtain ⟨equal, hequal, hnext⟩ := Option.bind_eq_some_iff.1 hrun
      exact Option.bind_eq_some_iff.2 ⟨equal, hsame x y equal hequal, ih equal hnext⟩

/-- More fuel changes no outcome. -/
theorem plain_mono
    {fuel more : Nat}
    (hle : fuel ≤ more)
    (hplain : h.plain fuel x y = some outcome) :
    h.plain more x y = some outcome := by
  induction fuel generalizing more x y outcome with
  | zero => cases hplain
  | succ fuel ih =>
      obtain ⟨more, rfl⟩ := Nat.exists_eq_add_of_le' (Nat.le_of_add_left_le hle)
      rcases isImmediate_or_nests h x y with ⟨direct, hxy⟩ | ⟨parts, hxy⟩
      · rw [hxy.plain] at hplain ⊢
        exact hplain
      · rw [hxy.plain] at hplain ⊢
        exact run_mono (fun x y outcome => ih (by omega)) _ hplain

/-- There is one outcome at most. -/
theorem Settles.unique
    {other : Bool}
    (hsettles : h.Settles x y outcome)
    (hother : h.Settles x y other) :
    outcome = other := by
  obtain ⟨fuel, hplain⟩ := hsettles
  obtain ⟨fuel', hplain'⟩ := hother
  have hmore := plain_mono (Nat.le_max_left fuel fuel') hplain
  rw [plain_mono (Nat.le_max_right fuel fuel') hplain'] at hmore
  exact (Option.some.inj hmore).symm

theorem IsImmediate.settles
    (hxy : h.IsImmediate x y outcome) :
    h.Settles x y outcome :=
  ⟨1, hxy.plain 0⟩

/-- With enough fuel for each question there is enough for all. -/
theorem exists_run_of_yields
    {inquiry : Inquiry}
    (hyields : inquiry.Yields h.Settles outcome) :
    ∃ fuel, inquiry.run (h.plain fuel) = some outcome := by
  induction hyields with
  | answer equal => exact ⟨0, rfl⟩
  | ask hsettles _ ih =>
      obtain ⟨fuel, hplain⟩ := hsettles
      obtain ⟨fuel', hrun⟩ := ih
      refine ⟨max fuel fuel', Option.bind_eq_some_iff.2 ⟨_, plain_mono (by omega) hplain, ?_⟩⟩
      exact run_mono (fun x y outcome => plain_mono (by omega)) _ hrun

theorem Nests.settles
    {parts : Parts}
    (hxy : h.Nests x y parts)
    (hyields : parts.inquiry.Yields h.Settles outcome) :
    h.Settles x y outcome := by
  obtain ⟨fuel, hrun⟩ := exists_run_of_yields hyields
  exact ⟨fuel + 1, by rw [hxy.plain, hrun]⟩

end Settles

/-! ### Comparison with memory -/

/-- All outcomes that are kept are those of plain comparisons. -/
def IsSound (h : Heap) (d : Decided) : Prop :=
  ∀ x y outcome, d[(x, y)]? = some outcome → h.Settles x y outcome

/-- A computation that ends as `done` says, or stops for the limit for the reason `stopped`. -/
inductive Ends {α : Type} (done : α → Prop) (stopped : Prop) : Except EvalError α → Prop
  | ok {a : α} : done a → Ends done stopped (.ok a)
  | limit : stopped → Ends done stopped (.error .recursionLimit)

/-- How a comparison ends may be said more weakly. -/
theorem Ends.imp
    {α : Type} {done done' : α → Prop} {stopped stopped' : Prop} {m : Except EvalError α}
    (hm : Ends done stopped m)
    (hdone : ∀ a, done a → done' a)
    (hstopped : stopped → stopped') :
    Ends done' stopped' m := by
  cases hm with
  | ok ha => exact .ok (hdone _ ha)
  | limit hs => exact .limit (hstopped hs)

/-- Endings are carried through the steps of a comparison. -/
theorem Ends.bind
    {α β : Type} {done : α → Prop} {done' : β → Prop} {stopped stopped' : Prop}
    {m : Except EvalError α} {next : α → Except EvalError β}
    (hm : Ends done stopped m)
    (hstopped : stopped → stopped')
    (hnext : ∀ a, done a → Ends done' stopped' (next a)) :
    Ends done' stopped' (m >>= next) := by
  cases hm with
  | ok ha => exact hnext _ ha
  | limit hs => exact .limit (hstopped hs)

section Memory

variable {x y : Ref} {outcome : Bool} {d : Decided}

theorem isSound_empty
    (h : Heap) :
    h.IsSound ∅ := by
  intro x y outcome hkept
  simp at hkept

/-- A memo stays sound with an answer that is settled. -/
theorem IsSound.insert
    (hd : h.IsSound d)
    (hsettles : h.Settles x y outcome) :
    h.IsSound (d.insert (x, y) outcome) := by
  intro a b other hkept
  rw [Std.HashMap.getElem?_insert] at hkept
  split at hkept
  · next heq =>
      obtain ⟨rfl, rfl⟩ := Prod.mk.inj (eq_of_beq heq)
      rwa [← Option.some.inj hkept]
  · exact hd a b other hkept

/-- How the comparison of two values goes on, and what it ends with: its outcome is at hand,
it stops, or it looks at the parts. -/
inductive Proceeds (h : Heap) (active : List (Ref × Ref)) (d : Decided) (x y : Ref) :
    Nat → Except EvalError (Bool × Decided) → Prop
  | immediate {room : Nat} {outcome : Bool} :
      h.IsImmediate x y outcome → Proceeds h active d x y room (.ok (outcome, d))
  | known {room : Nat} {parts : Parts} {outcome : Bool} :
      h.Nests x y parts → d[(x, y)]? = some outcome →
        Proceeds h active d x y room (.ok (outcome, d))
  | full {parts : Parts} :
      h.Nests x y parts → Proceeds h active d x y 0 (.error .recursionLimit)
  | active {room : Nat} {parts : Parts} :
      h.Nests x y parts → (x, y) ∈ active →
        Proceeds h active d x y (room + 1) (.error .recursionLimit)
  | inside {room : Nat} {parts : Parts} :
      h.Nests x y parts → (x, y) ∉ active →
        Proceeds h active d x y (room + 1)
          ((parts.inquiry.run (h.equalWithin room ((x, y) :: active))).run d >>= fun p =>
            .ok (p.1, p.2.insert (x, y) p.1))

/-- What one step of the comparison with a memo does, case by case. -/
theorem proceeds_equalWithin
    (h : Heap) (room : Nat) (active : List (Ref × Ref)) (x y : Ref) (d : Decided) :
    h.Proceeds active d x y room ((h.equalWithin room active x y).run d) := by
  rcases isImmediate_or_nests h x y with ⟨outcome, hxy⟩ | ⟨parts, hxy⟩
  · rw [hxy.equalWithin]
    exact .immediate hxy
  · cases hkept : d[(x, y)]? with
    | some known =>
        rw [hxy.equalWithin_known room active hkept]
        exact .known hxy hkept
    | none =>
        cases room with
        | zero =>
            rw [hxy.equalWithin_zero active hkept]
            exact .full hxy
        | succ room =>
            by_cases hactive : (x, y) ∈ active
            · rw [hxy.equalWithin_active room hkept hactive]
              exact .active hxy hactive
            · rw [hxy.equalWithin_succ room hkept hactive]
              exact .inside hxy hactive

/-- If each question is settled or stops the comparison, so is the inquiry. -/
theorem run_ends
    {same : Ref → Ref → Comparing Bool} {stops : Ref → Ref → Prop}
    (hsame : ∀ x y d, h.IsSound d →
        Ends (fun p => h.Settles x y p.1 ∧ h.IsSound p.2) (stops x y) ((same x y).run d))
    (inquiry : Inquiry)
    (hd : h.IsSound d) :
    Ends (fun p => inquiry.Yields h.Settles p.1 ∧ h.IsSound p.2)
      (∃ a b, inquiry.ComesTo h.Settles a b ∧ stops a b) ((inquiry.run same).run d) := by
  induction inquiry generalizing d with
  | answer equal => exact .ok ⟨.answer equal, hd⟩
  | ask x y next ih =>
      rw [Inquiry.run, StateT.run_bind]
      refine (hsame x y d hd).bind (fun hs => ⟨x, y, .here, hs⟩) fun p hp => ?_
      refine (ih p.1 hp.2).imp (fun q hq => ⟨.ask hp.1 hq.1, hq.2⟩) ?_
      rintro ⟨a, b, hcomes, hs⟩
      exact ⟨a, b, .later hp.1 hcomes, hs⟩

/-- A comparison settles its pair and leaves a sound table, or it meets a pair that stops it. -/
theorem equalWithin_ends
    {room : Nat} {active : List (Ref × Ref)}
    (hroom : Limits.valueNesting ≤ active.length + room)
    (hd : h.IsSound d) :
    Ends (fun p => h.Settles x y p.1 ∧ h.IsSound p.2) (h.Meets active x y)
      ((h.equalWithin room active x y).run d) := by
  induction room using Nat.strongRecOn generalizing active x y d with
  | ind room ih =>
      have hproceeds := proceeds_equalWithin h room active x y d
      generalize (h.equalWithin room active x y).run d = ended at hproceeds ⊢
      cases hproceeds with
      | immediate hxy => exact .ok ⟨hxy.settles, hd⟩
      | known hxy hkept => exact .ok ⟨hd x y _ hkept, hd⟩
      | full hxy => exact .limit (.nested hxy hroom)
      | active hxy hactive => exact .limit (.active hxy hactive)
      | @inside room parts hxy hactive =>
          have hinside : Limits.valueNesting ≤ ((x, y) :: active).length + room := by
            rw [List.length_cons]
            omega
          refine (run_ends (fun a b e he => ih room room.lt_succ_self hinside he) parts.inquiry
            hd).bind ?_ ?_
          · rintro ⟨a, b, hcomes, hmeets⟩
            exact .inside hxy hcomes hmeets
          · rintro ⟨equal, e⟩ ⟨hyields, he⟩
            have hsettles := hxy.settles hyields
            exact .ok ⟨hsettles, he.insert hsettles⟩

end Memory

/-! ### Limited comparison -/

section Limited

variable {x y : Ref} {outcome : Bool}

theorem yields_of_run
    {same : Ref → Ref → Except EvalError Bool} {out : Ref → Ref → Bool → Prop}
    (hsame : ∀ x y outcome, same x y = .ok outcome → out x y outcome)
    (inquiry : Inquiry)
    (hrun : inquiry.run same = .ok outcome) :
    inquiry.Yields out outcome := by
  induction inquiry with
  | answer equal =>
      cases hrun
      exact .answer _
  | ask x y next ih =>
      rw [Inquiry.run] at hrun
      cases hequal : same x y with
      | error e =>
          rw [hequal] at hrun
          cases hrun
      | ok equal =>
          rw [hequal] at hrun
          exact .ask (hsame x y equal hequal) (ih equal hrun)

/-- The limited comparison settles what it answers. -/
theorem settles_of_limited
    {room : Nat} {active : List (Ref × Ref)}
    (hlimited : h.limited room active x y = .ok outcome) :
    h.Settles x y outcome := by
  induction room generalizing active x y outcome with
  | zero =>
      rcases isImmediate_or_nests h x y with ⟨direct, hxy⟩ | ⟨parts, hxy⟩
      · rw [hxy.limited] at hlimited
        cases hlimited
        exact hxy.settles
      · rw [hxy.limited_zero] at hlimited
        cases hlimited
  | succ room ih =>
      rcases isImmediate_or_nests h x y with ⟨direct, hxy⟩ | ⟨parts, hxy⟩
      · rw [hxy.limited] at hlimited
        cases hlimited
        exact hxy.settles
      · rw [hxy.limited_succ] at hlimited
        split at hlimited
        · cases hlimited
        · exact hxy.settles (yields_of_run (fun a b outcome => ih) _ hlimited)

/-- If each question that has an outcome without memory has it with memory, so has the
inquiry. -/
theorem run_of_run
    {same : Ref → Ref → Except EvalError Bool} {same' : Ref → Ref → Comparing Bool} {d : Decided}
    (hsame : ∀ x y outcome d, h.IsSound d → same x y = .ok outcome →
        ∃ e, (same' x y).run d = .ok (outcome, e) ∧ h.IsSound e)
    (inquiry : Inquiry)
    (hd : h.IsSound d)
    (hrun : inquiry.run same = .ok outcome) :
    ∃ e, (inquiry.run same').run d = .ok (outcome, e) ∧ h.IsSound e := by
  induction inquiry generalizing d with
  | answer equal =>
      cases hrun
      exact ⟨d, rfl, hd⟩
  | ask x y next ih =>
      rw [Inquiry.run] at hrun
      cases hequal : same x y with
      | error e =>
          rw [hequal] at hrun
          cases hrun
      | ok equal =>
          rw [hequal] at hrun
          obtain ⟨e, hkept, he⟩ := hsame x y equal d hd hequal
          obtain ⟨f, hrest, hf⟩ := ih equal he hrun
          refine ⟨f, ?_, hf⟩
          rw [Inquiry.run, StateT.run_bind, hkept]
          exact hrest

/-- An outcome of the limited comparison is found, whatever is kept from before. -/
theorem equalWithin_of_limited
    {room : Nat} {active : List (Ref × Ref)} {d : Decided}
    (hd : h.IsSound d)
    (hlimited : h.limited room active x y = .ok outcome) :
    ∃ e, (h.equalWithin room active x y).run d = .ok (outcome, e) ∧ h.IsSound e := by
  have hsettles := settles_of_limited hlimited
  induction room using Nat.strongRecOn generalizing active x y outcome d with
  | ind room ih =>
      have hproceeds := proceeds_equalWithin h room active x y d
      generalize (h.equalWithin room active x y).run d = ended at hproceeds ⊢
      cases hproceeds with
      | immediate hxy => exact ⟨d, by rw [hsettles.unique hxy.settles], hd⟩
      | known hxy hkept =>
          -- What was kept inside other pairs is the outcome here as well.
          exact ⟨d, by rw [hsettles.unique (hd x y _ hkept)], hd⟩
      | full hxy =>
          rw [hxy.limited_zero] at hlimited
          cases hlimited
      | active hxy hactive =>
          rw [hxy.limited_succ, if_pos hactive] at hlimited
          cases hlimited
      | @inside room parts hxy hactive =>
          rw [hxy.limited_succ, if_neg hactive] at hlimited
          have hsame : ∀ a b outcome e, h.IsSound e →
              h.limited room ((x, y) :: active) a b = .ok outcome →
              ∃ f, (h.equalWithin room ((x, y) :: active) a b).run e = .ok (outcome, f) ∧
                h.IsSound f :=
            fun a b outcome e he hinner =>
              ih room room.lt_succ_self he hinner (settles_of_limited hinner)
          obtain ⟨e, hrun, he⟩ := run_of_run hsame parts.inquiry hd hlimited
          refine ⟨e.insert (x, y) outcome, ?_, he.insert hsettles⟩
          rw [hrun]
          rfl

end Limited

/-- Equality has no outcome but the one on which the plain comparison ends; it has it wherever
the checks let the plain comparison pass; and if it has none, it met a pair inside itself or
too many pairs inside each other. -/
theorem equal_agrees_with_plain
    (h : Heap) (x y : Ref) :
    (∀ outcome, h.equal x y = .ok outcome → h.Settles x y outcome) ∧
      (∀ outcome, h.limited Limits.valueNesting [] x y = .ok outcome →
        h.equal x y = .ok outcome) ∧
      ((∃ outcome, h.equal x y = .ok outcome) ∨
        h.equal x y = .error .recursionLimit ∧ h.Meets [] x y) := by
  have hends : Ends (fun p => h.Settles x y p.1 ∧ h.IsSound p.2) (h.Meets [] x y)
      ((h.equalWithin Limits.valueNesting [] x y).run ∅) :=
    equalWithin_ends (by simp) (isSound_empty h)
  have hequal : h.equal x y =
      (h.equalWithin Limits.valueNesting [] x y).run ∅ >>= fun p => .ok p.1 := by
    simp only [equal, StateT.run'_eq, map_eq_pure_bind]
    rfl
  refine ⟨fun outcome hok => ?_, fun outcome hlimited => ?_, ?_⟩
  · rw [hequal] at hok
    generalize (h.equalWithin Limits.valueNesting [] x y).run ∅ = ended at hends hok
    cases hends with
    | ok hp =>
        cases hok
        exact hp.1
    | limit => cases hok
  · obtain ⟨e, hrun, -⟩ := equalWithin_of_limited (isSound_empty h) hlimited
    rw [hequal, hrun]
    rfl
  · rw [hequal]
    generalize (h.equalWithin Limits.valueNesting [] x y).run ∅ = ended at hends
    cases hends with
    | @ok p hp => exact .inl ⟨p.1, rfl⟩
    | limit hmeets => exact .inr ⟨rfl, hmeets⟩

end Heap
end LiveProbe
