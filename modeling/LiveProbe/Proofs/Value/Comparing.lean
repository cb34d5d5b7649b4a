import LiveProbe.Proofs.Value.Alike
import LiveProbe.Value.Equality

/-!
# Comparing values alike

Structural equality does not depend on identities.

**Specification.**  Computations concur (`Concur`) if they end with the same fault or
with related outcomes.

**Results.**
* `Heap.Alike.equal_eq`: paired values of alike heaps are compared with one outcome.
-/

namespace LiveProbe

variable {R : Ref → Ref → Prop}

/-- Both end with the same fault or with related outcomes. -/
inductive Concur {α β : Type} (T : α → β → Prop) :
    Except EvalError α → Except EvalError β → Prop
  | ok {a : α} {b : β} : T a b → Concur T (.ok a) (.ok b)
  | error (e : EvalError) : Concur T (.error e) (.error e)

/-- Steps that concur may be followed by steps that do. -/
theorem Concur.bind
    {α β γ δ : Type} {T : α → β → Prop} {U : γ → δ → Prop} {m : Except EvalError α}
    {m' : Except EvalError β} {k : α → Except EvalError γ} {k' : β → Except EvalError δ}
    (h : Concur T m m')
    (hk : ∀ a b, T a b → Concur U (k a) (k' b)) :
    Concur U (m >>= k) (m' >>= k') := by
  cases h with
  | ok hab => exact hk _ _ hab
  | error e => exact .error e

theorem Concur.imp
    {α β : Type} {T U : α → β → Prop} {m : Except EvalError α} {m' : Except EvalError β}
    (h : Concur T m m')
    (hTU : ∀ a b, T a b → U a b) :
    Concur U m m' := by
  cases h with
  | ok hab => exact .ok (hTU _ _ hab)
  | error e => exact .error e

theorem Concur.of_eq
    {α : Type} {m m' : Except EvalError α}
    (h : m = m') :
    Concur (· = ·) m m' := by
  subst h
  cases m with
  | ok => exact .ok rfl
  | error e => exact .error e

theorem Concur.eq
    {α : Type} {m m' : Except EvalError α}
    (h : Concur (· = ·) m m') :
    m = m' := by
  cases h with
  | ok hab => rw [hab]
  | error => rfl

/-- What concurs with a value is a value paired with it. -/
theorem Concur.exists_ok
    {α β : Type} {T : α → β → Prop} {a : α} {m : Except EvalError β}
    (h : Concur T (.ok a) m) :
    ∃ b, m = .ok b ∧ T a b := by
  cases h with
  | ok hab => exact ⟨_, rfl, hab⟩

theorem Concur.eq_error
    {α β : Type} {T : α → β → Prop} {e : EvalError} {m : Except EvalError β}
    (h : Concur T (.error e) m) :
    m = .error e := by
  cases h with
  | error => rfl

/-! ### Comparisons in step -/

namespace Comparing

/-- The same outcome is kept for paired pairs. -/
def KeptAlike (R : Ref → Ref → Prop) (d d' : Decided) : Prop :=
  ∀ {x y a b : Ref}, R x a → R y b → d[(x, y)]? = d'[(a, b)]?

/-- Two comparisons that go in step: from outcomes kept alike they come to the same
end. -/
def InStep (R : Ref → Ref → Prop) (m m' : Comparing Bool) : Prop :=
  ∀ d d', KeptAlike R d d' →
    Concur (fun p p' => p.1 = p'.1 ∧ KeptAlike R p.2 p'.2) (m.run d) (m'.run d')

theorem InStep.pure
    (answer : Bool) :
    InStep R (Pure.pure answer) (Pure.pure answer) :=
  fun _ _ hd => .ok ⟨rfl, hd⟩

theorem InStep.throw
    (e : EvalError) :
    InStep R (MonadExcept.throw e) (MonadExcept.throw e) :=
  fun _ _ _ => .error e

/-- Comparisons in step may be followed by comparisons in step. -/
theorem InStep.bind
    {m m' : Comparing Bool} {k k' : Bool → Comparing Bool}
    (h : InStep R m m')
    (hk : ∀ answer, InStep R (k answer) (k' answer)) :
    InStep R (m >>= k) (m' >>= k') := by
  intro d d' hd
  rw [StateT.run_bind, StateT.run_bind]
  refine (h d d' hd).bind ?_
  rintro ⟨answer, e⟩ ⟨_, e'⟩ ⟨rfl, he⟩
  exact hk answer e e' he

theorem InStep.ite
    {m m' n n' : Comparing Bool}
    (b : Bool)
    (h : InStep R m m')
    (h' : InStep R n n') :
    InStep R (if b then m else n) (if b then m' else n') := by
  cases b with
  | true => exact h
  | false => exact h'

variable {same same' : Ref → Ref → Comparing Bool}

/-- Sequences are compared in step, item by item. -/
theorem inStep_pairwise
    {xs ys as bs : List Ref}
    (hsame : ∀ x a y b, R x a → R y b → InStep R (same x y) (same' a b))
    (hxs : List.Forall₂ R xs as) (hys : List.Forall₂ R ys bs) :
    InStep R (pairwise same xs ys) (pairwise same' as bs) := by
  induction hxs generalizing ys bs with
  | nil =>
      simp only [pairwise]
      exact .pure true
  | cons hx _ ih =>
      cases hys with
      | nil =>
          exact .pure true
      | cons hy hys =>
          exact (hsame _ _ _ _ hx hy).bind fun answer => .ite answer (ih hys) (.pure false)

/-- A scan for an entry makes the same comparisons on both sides. -/
theorem inStep_hasEntry
    {key value key' value' : Ref} {entries entries' : List (Ref × Ref)}
    (hsame : ∀ x a y b, R x a → R y b → InStep R (same x y) (same' a b))
    (hkey : R key key')
    (hvalue : R value value')
    (hentries : List.Forall₂ (Value.EntryAlike R) entries entries') :
    InStep R (hasEntry same key value entries) (hasEntry same' key' value' entries') := by
  induction hentries with
  | nil =>
      exact .pure false
  | cons he _ ih =>
      refine (hsame _ _ _ _ hkey he.1).bind fun answer => .ite answer ?_ ih
      exact (hsame _ _ _ _ hvalue he.2).bind fun answer => .ite answer (.pure true) ih

theorem inStep_entrywise
    {entries entries' others others' : List (Ref × Ref)}
    (hsame : ∀ x a y b, R x a → R y b → InStep R (same x y) (same' a b))
    (hentries : List.Forall₂ (Value.EntryAlike R) entries entries')
    (hothers : List.Forall₂ (Value.EntryAlike R) others others') :
    InStep R (entrywise same entries others) (entrywise same' entries' others') := by
  induction hentries with
  | nil =>
      exact .pure true
  | cons he _ ih =>
      exact (inStep_hasEntry hsame he.1 he.2 hothers).bind fun answer =>
        .ite answer ih (.pure false)

end Comparing

namespace Heap

open Comparing (InStep KeptAlike)

/-! ### Parts -/

/-- Paired parts. -/
inductive Parts.Alike (R : Ref → Ref → Prop) : Parts → Parts → Prop
  | items {left right left' right' : List Ref} :
      List.Forall₂ R left left' → List.Forall₂ R right right' →
      Alike R (.items left right) (.items left' right')
  | entries {left right left' right' : List (Ref × Ref)} :
      List.Forall₂ (Value.EntryAlike R) left left' →
      List.Forall₂ (Value.EntryAlike R) right right' →
      Alike R (.entries left right) (.entries left' right')

theorem parts?_alike
    {v w v' w' : Value}
    (hv : v.Alike R v')
    (hw : w.Alike R w') :
    Option.Rel (Parts.Alike R) (parts? v w) (parts? v' w') := by
  cases hv with
  | list hv =>
      cases hw with
      | list hw => exact .some (.items hv hw)
      | _ => exact .none
  | tuple hv =>
      cases hw with
      | tuple hw => exact .some (.items hv hw)
      | _ => exact .none
  | dict hv =>
      cases hw with
      | dict hw => exact .some (.entries hv hw)
      | _ => exact .none
  | _ =>
      cases hw <;> exact .none

theorem sameScalar_eq
    {v w v' w' : Value}
    (hv : v.Alike R v')
    (hw : w.Alike R w') :
    sameScalar v w = sameScalar v' w' := by
  cases hv <;> cases hw <;> rfl

theorem Parts.inStep_compare
    {same same' : Ref → Ref → Comparing Bool} {parts parts' : Parts}
    (hsame : ∀ x a y b, R x a → R y b → InStep R (same x y) (same' a b))
    (hparts : Parts.Alike R parts parts') :
    InStep R (parts.compare same) (parts'.compare same') := by
  cases hparts with
  | items hl hr =>
      simp only [compare, hl.length_eq, hr.length_eq]
      split
      · exact Comparing.inStep_pairwise hsame hl hr
      · exact .pure false
  | entries hl hr =>
      simp only [compare, hl.length_eq, hr.length_eq]
      split
      · exact Comparing.inStep_entrywise hsame hl hr
      · exact .pure false

namespace Alike

variable {h g : Heap}

/-- Pairs of references are equal exactly where their partners are. -/
theorem pair_eq_iff
    {x y x' y' a b a' b' : Ref}
    (ha : Alike R h g)
    (hx : R x a)
    (hy : R y b)
    (hx' : R x' a')
    (hy' : R y' b') :
    (x, y) = (x', y') ↔ (a, b) = (a', b') := by
  rw [Prod.mk.injEq, Prod.mk.injEq, ha.eq_iff hx hx', ha.eq_iff hy hy']

theorem pair_mem_iff
    {x y a b : Ref} {active active' : List (Ref × Ref)}
    (ha : Alike R h g)
    (hx : R x a)
    (hy : R y b)
    (hactive : List.Forall₂ (Value.EntryAlike R) active active') :
    (x, y) ∈ active ↔ (a, b) ∈ active' := by
  induction hactive with
  | nil =>
      simp
  | cons he _ ih =>
      rw [List.mem_cons, List.mem_cons, ih, ha.pair_eq_iff hx hy he.1 he.2]

theorem keptAlike_insert
    {x y a b : Ref} {d d' : Decided}
    (ha : Alike R h g)
    (hd : KeptAlike R d d')
    (hx : R x a)
    (hy : R y b)
    (answer : Bool) :
    KeptAlike R (d.insert (x, y) answer) (d'.insert (a, b) answer) := by
  intro x' y' a' b' hx' hy'
  have hiff := ha.pair_eq_iff hx hy hx' hy'
  rw [Std.HashMap.getElem?_insert, Std.HashMap.getElem?_insert]
  simp only [beq_iff_eq, hiff, hd hx' hy']

theorem inStep_known
    {x y a b : Ref} {m m' : Comparing Bool}
    (hx : R x a)
    (hy : R y b)
    (hm : InStep R m m') :
    InStep R
      (do match (← get)[(x, y)]? with
          | some known => return known
          | none => m)
      (do match (← get)[(a, b)]? with
          | some known => return known
          | none => m') := by
  intro d d' hd
  simp only [StateT.run_bind, StateT.run_get, pure_bind, hd hx hy]
  cases d'[(a, b)]? with
  | some known => exact .ok ⟨rfl, hd⟩
  | none => exact hm d d' hd

theorem inStep_keep
    {x y a b : Ref}
    (ha : Alike R h g)
    (hx : R x a)
    (hy : R y b)
    (answer : Bool) :
    InStep R
      (do modify (·.insert (x, y) answer); return answer)
      (do modify (·.insert (a, b) answer); return answer) :=
  fun _ _ hd => .ok ⟨rfl, ha.keptAlike_insert hd hx hy answer⟩

/-- Paired values are compared in step, inside paired pairs. -/
theorem inStep_equalWithin
    (ha : Alike R h g)
    (room : Nat)
    {active active' : List (Ref × Ref)} {x y a b : Ref}
    (hactive : List.Forall₂ (Value.EntryAlike R) active active')
    (hx : R x a)
    (hy : R y b) :
    InStep R (h.equalWithin room active x y) (g.equalWithin room active' a b) := by
  induction room generalizing active active' x y a b with
  | zero =>
      have hscalar := sameScalar_eq (ha.read hx) (ha.read hy)
      have hparts := parts?_alike (ha.read hx) (ha.read hy)
      unfold equalWithin
      simp only [ha.eq_iff hx hy, hscalar]
      split
      · exact .pure true
      · generalize parts? (h.read x) (h.read y) = parts at hparts ⊢
        generalize parts? (g.read a) (g.read b) = parts' at hparts ⊢
        cases hparts with
        | none => exact .pure _
        | some _ => exact inStep_known hx hy (.throw _)
  | succ room ih =>
      have hscalar := sameScalar_eq (ha.read hx) (ha.read hy)
      have hparts := parts?_alike (ha.read hx) (ha.read hy)
      have hmem := ha.pair_mem_iff hx hy hactive
      unfold equalWithin
      simp only [ha.eq_iff hx hy, hscalar, hmem]
      split
      · exact .pure true
      · generalize parts? (h.read x) (h.read y) = parts at hparts ⊢
        generalize parts? (g.read a) (g.read b) = parts' at hparts ⊢
        cases hparts with
        | none =>
            exact .pure _
        | some hparts =>
            refine inStep_known hx hy ?_
            split
            · exact .throw _
            · refine (Parts.inStep_compare ?_ hparts).bind fun answer => ha.inStep_keep hx hy answer
              exact fun x' a' y' b' hx' hy' => ih (.cons ⟨hx, hy⟩ hactive) hx' hy'

/-- Equality has the same outcome for paired references. -/
theorem equal_eq
    {x y a b : Ref}
    (ha : Alike R h g)
    (hx : R x a)
    (hy : R y b) :
    h.equal x y = g.equal a b := by
  have hrun := ha.inStep_equalWithin Limits.valueNesting .nil hx hy ∅ ∅ fun _ _ => by simp
  refine Concur.eq ?_
  exact hrun.bind fun _ _ hp => .ok hp.1

end Alike
end Heap
end LiveProbe
