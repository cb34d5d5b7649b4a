import LiveProbe.Proofs.Agent.Handing

/-!
# What becomes of a deferred callback

Every callback that is registered is pending, or was returned once.

**Specification.**  A run is a list of operations on the registry that is empty at first.  A
registered callback is told by the place of its registration in the run, so that equal
callbacks are not mixed up (`CallbackRegistry.registrations`).  It goes to the first later
operation that takes it: one for an event that it waits for, or one that drains the registry
(`CallbackRegistry.taker?`).

**Step.**  All three operations return the pending callbacks that they take, and leave the
others with those that they register (`CallbackRegistry.perform_eq`).

**Results.**
* `CallbackRegistry.sweep_eq`: removal in the course of a scan skips no callback.
* `CallbackRegistry.pending_after`, `CallbackRegistry.returned_eq`: what is pending and what
  an operation returns, by induction on the run.
* `CallbackRegistry.pending_or_returned_once`: both together, with the count.
-/

namespace LiveProbe
namespace CallbackRegistry

/-! ### Runs -/

/-- An operation on the registry. -/
inductive Operation
  | register (c : DeferredCallback)
  | take (event : TraceEvent) (frame : HostFrame)
  | drain

namespace Operation

/-- The callback that is registered. -/
def registered? : Operation → Option DeferredCallback
  | .register c => some c
  | .take _ _ | .drain => none

/-- A pending callback is taken. -/
def takes : Operation → DeferredCallback → Bool
  | .register _, _ => false
  | .take event frame, c => c.location.matches event frame
  | .drain, _ => true

end Operation

/-- What the operation returns, and the registry behind it. -/
def perform (r : CallbackRegistry) : Operation → List DeferredCallback × CallbackRegistry
  | .register c => ([], r.register c)
  | .take event frame => r.takeMatching event frame
  | .drain => r.drain

/-- The registry behind a run. -/
def after (ops : List Operation) : CallbackRegistry :=
  ops.foldl (fun r op => (r.perform op).2) .empty

/-- What the operation at a place of the run returns. -/
def returned (ops : List Operation) (j : Nat) : List DeferredCallback :=
  (ops[j]?.map fun op => ((after (ops.take j)).perform op).1).getD []

/-- A callback with the place of its registration. -/
abbrev Registration := Nat × DeferredCallback

/-- What is registered in the run, in order. -/
def registrations (ops : List Operation) : List Registration :=
  ops.zipIdx.filterMap fun p => p.1.registered?.map fun c => (p.2, c)

/-- The place of the first later operation that takes what was registered. -/
def taker? (ops : List Operation) (x : Registration) : Option Nat :=
  ((ops.drop (x.1 + 1)).findIdx? (·.takes x.2)).map (· + (x.1 + 1))

/-- The registered callbacks with the given taker, in order; those without one are left. -/
def takenBy (ops : List Operation) (taker : Option Nat) : List DeferredCallback :=
  ((registrations ops).filter fun x => taker? ops x = taker).map Prod.snd

/-! ### Removal while scanning -/

/-- Goes on from place `i`: what is removed there makes room for the next. -/
def sweep (p : DeferredCallback → Bool) (taken : List DeferredCallback) (i : Nat)
    (left : List DeferredCallback) : List DeferredCallback × List DeferredCallback :=
  if h : i < left.length then
    if p left[i] then sweep p (taken ++ [left[i]]) i (left.eraseIdx i)
    else sweep p taken (i + 1) left
  else (taken, left)
termination_by left.length - i
decreasing_by
  · rw [List.length_eraseIdx_of_lt h]
    omega
  · omega

/-- The sweep splits a list, keeping the order of both parts. -/
theorem sweep_eq
    (p : DeferredCallback → Bool) (taken front rest : List DeferredCallback) :
    sweep p taken front.length (front ++ rest) =
      (taken ++ rest.filter p, front ++ rest.filter fun c => !p c) := by
  induction rest generalizing taken front with
  | nil =>
      rw [sweep, dif_neg (by simp)]
      simp
  | cons c rest ih =>
      rw [sweep, dif_pos (by simp), List.getElem_append_right (Nat.le_refl _)]
      simp only [Nat.sub_self, List.getElem_cons_zero]
      cases hc : p c with
      | true =>
          have herase : (front ++ c :: rest).eraseIdx front.length = front ++ rest := by
            rw [List.eraseIdx_append_of_length_le (Nat.le_refl _), Nat.sub_self]
            rfl
          rw [if_pos rfl, herase, ih]
          simp [hc]
      | false =>
          have hnext := ih taken (front ++ [c])
          rw [List.length_append, List.length_singleton, List.append_assoc] at hnext
          rw [if_neg Bool.false_ne_true]
          refine hnext.trans ?_
          simp [hc]

/-! ### One operation -/

section Step

variable {r : CallbackRegistry}

/-- A registry that counts right is given by what is pending. -/
theorem eq_ofPending
    (hcounted : r.IsCounted) :
    r = .ofPending r.pending := by
  rw [ofPending, ← hcounted]

/-- Taking matches returns those that match and leaves the others, in order. -/
theorem takeMatching_eq
    (hcounted : r.IsCounted)
    (event : TraceEvent) (frame : HostFrame) :
    r.takeMatching event frame =
      (r.pending.filter fun c => c.location.matches event frame,
        .ofPending (r.pending.filter fun c => !c.location.matches event frame)) := by
  obtain ⟨htaken, hleft⟩ := takeMatching_of_isCounted hcounted event frame
  refine Prod.ext htaken ?_
  rw [eq_ofPending (count_takeMatching hcounted event frame), hleft]

/-- What is taken is returned, and what is left comes before what is registered. -/
theorem perform_eq
    (hcounted : r.IsCounted)
    (op : Operation) :
    r.perform op = (r.pending.filter op.takes,
      .ofPending (r.pending.filter (fun c => !op.takes c) ++ op.registered?.toList)) := by
  cases op with
  | register c => simp [perform, register, Operation.takes, Operation.registered?]
  | take event frame =>
      rw [perform, takeMatching_eq hcounted, Operation.registered?, Option.toList_none,
        List.append_nil]
      rfl
  | drain =>
      have hall : r.pending.filter Operation.drain.takes = r.pending :=
        List.filter_eq_self.mpr fun _ _ => rfl
      have hnone : r.pending.filter (fun c => !Operation.drain.takes c) = [] :=
        List.filter_eq_nil_iff.mpr fun _ _ => Bool.false_ne_true
      rw [hall, hnone]
      rfl

end Step

/-! ### Runs, one operation at a time -/

section Runs

variable (ops : List Operation) (op : Operation)

/-- A further operation is performed on what the earlier ones left. -/
theorem after_append_singleton :
    after (ops ++ [op]) = ((after ops).perform op).2 := by
  simp [after]

theorem isCounted_after : (after ops).IsCounted := by
  induction ops using List.reverseRecOn with
  | nil => rfl
  | append_singleton ops op ih =>
      rw [after_append_singleton, perform_eq ih]
      rfl

theorem registrations_append_singleton :
    registrations (ops ++ [op]) =
      registrations ops ++ (op.registered?.map fun c => (ops.length, c)).toList := by
  rw [registrations, List.zipIdx_append, List.filterMap_append, ← registrations]
  cases hop : op.registered? <;> simp [hop]

variable {ops} {x : Registration} {j : Nat}

/-- A registration is known by its place among the operations. -/
theorem mem_registrations_iff :
    x ∈ registrations ops ↔ ops[x.1]? = some (.register x.2) := by
  rw [registrations, List.mem_filterMap]
  constructor
  · rintro ⟨⟨op, i⟩, hop, hx⟩
    obtain ⟨c, hc, rfl⟩ := Option.map_eq_some_iff.mp hx
    rw [List.mem_zipIdx_iff_getElem?] at hop
    cases op with
    | register c' =>
        cases hc
        exact hop
    | take | drain => cases hc
  · intro hx
    exact ⟨(.register x.2, x.1), List.mem_zipIdx_iff_getElem?.mpr hx, rfl⟩

theorem lt_length_of_mem_registrations
    (hx : x ∈ registrations ops) :
    x.1 < ops.length :=
  (List.getElem?_eq_some_iff.mp (mem_registrations_iff.mp hx)).1

/-- A further operation takes only what nothing took before. -/
theorem taker?_append_singleton
    (hx : x.1 < ops.length) :
    taker? (ops ++ [op]) x =
      (taker? ops x).or (if op.takes x.2 then some ops.length else none) := by
  have hdrop : (ops ++ [op]).drop (x.1 + 1) = ops.drop (x.1 + 1) ++ [op] :=
    List.drop_append_of_le_length hx
  have hlength : ops.length - (x.1 + 1) + (x.1 + 1) = ops.length := by omega
  rw [taker?, hdrop, List.findIdx?_append, taker?, List.length_drop]
  cases (ops.drop (x.1 + 1)).findIdx? (·.takes x.2) with
  | some i => rfl
  | none =>
      rw [List.findIdx?_singleton]
      cases op.takes x.2 with
      | false => rfl
      | true => simp [hlength]

theorem taker?_eq_some
    (h : taker? ops x = some j) :
    x.1 < j ∧ ∃ op, ops[j]? = some op ∧ op.takes x.2 = true := by
  obtain ⟨i, hi, rfl⟩ := Option.map_eq_some_iff.mp h
  obtain ⟨hlength, htakes, -⟩ := List.findIdx?_eq_some_iff_getElem.mp hi
  refine ⟨by omega, (ops.drop (x.1 + 1))[i], ?_, htakes⟩
  rw [← List.getElem?_eq_getElem hlength, List.getElem?_drop, Nat.add_comm]

theorem taker?_lt
    (h : taker? ops x = some j) :
    j < ops.length := by
  obtain ⟨-, op, hop, -⟩ := taker?_eq_some h
  exact (List.getElem?_eq_some_iff.mp hop).1

theorem taker?_last
    (ops : List Operation) (op : Operation) (c : DeferredCallback) :
    taker? (ops ++ [op]) (ops.length, c) = none := by
  rw [taker?, List.drop_of_length_le (by simp)]
  rfl

theorem takenBy_append_singleton
    (ops : List Operation) (op : Operation) (taker : Option Nat) :
    takenBy (ops ++ [op]) taker =
      ((registrations ops).filter fun x =>
        (taker? ops x).or (if op.takes x.2 then some ops.length else none) = taker).map Prod.snd ++
      if taker = none then op.registered?.toList else [] := by
  rw [takenBy, registrations_append_singleton, List.filter_append, List.map_append]
  congr 1
  · refine congrArg (List.map Prod.snd) (List.filter_congr fun x hx => ?_)
    rw [taker?_append_singleton op (lt_length_of_mem_registrations hx)]
  · cases op.registered? with
    | none => simp
    | some c => cases taker <;> simp [taker?_last]

/-! ### Whole runs -/

/-- Whoever is without a taker meets the operation. -/
theorem filter_takenBy_none
    (ops : List Operation) (p : DeferredCallback → Bool) :
    (takenBy ops none).filter p =
      ((registrations ops).filter fun x => taker? ops x = none ∧ p x.2 = true).map Prod.snd := by
  rw [takenBy, List.filter_map, List.filter_filter]
  congr 1
  refine List.filter_congr fun x _ => ?_
  simp [and_comm]

theorem pending_after
    (ops : List Operation) :
    (after ops).pending = takenBy ops none := by
  induction ops using List.reverseRecOn with
  | nil => rfl
  | append_singleton ops op ih =>
      rw [after_append_singleton, perform_eq (isCounted_after ops), takenBy_append_singleton]
      dsimp only [ofPending]
      rw [ih, filter_takenBy_none, if_pos rfl]
      congr 2
      refine List.filter_congr fun x _ => ?_
      cases taker? ops x <;> simp

/-- Later operations do not change what an earlier one returned. -/
theorem returned_append_of_lt
    {j : Nat}
    (hj : j < ops.length)
    (op : Operation) :
    returned (ops ++ [op]) j = returned ops j := by
  rw [returned, List.getElem?_append_left hj, List.take_append_of_le_length hj.le, returned]

/-- The last operation returns what it takes of the pending. -/
theorem returned_append_last
    (ops : List Operation) (op : Operation) :
    returned (ops ++ [op]) ops.length = (after ops).pending.filter op.takes := by
  rw [returned, List.getElem?_concat_length, List.take_left, Option.map_some, Option.getD_some,
    perform_eq (isCounted_after ops)]

theorem returned_of_length_le
    {j : Nat}
    (hj : ops.length ≤ j) :
    returned ops j = [] := by
  rw [returned, List.getElem?_eq_none hj]
  rfl

theorem takenBy_of_length_le
    {j : Nat}
    (hj : ops.length ≤ j) :
    takenBy ops (some j) = [] := by
  have hnone : ∀ x ∈ registrations ops, ¬decide (taker? ops x = some j) = true := by
    intro x _ hx
    exact absurd (taker?_lt (of_decide_eq_true hx)) (Nat.not_lt_of_le hj)
  rw [takenBy, List.filter_eq_nil_iff.mpr hnone, List.map_nil]

/-- The induction is on the run: a later operation takes nothing from an earlier one. -/
theorem returned_eq
    (ops : List Operation) (j : Nat) :
    returned ops j = takenBy ops (some j) := by
  induction ops using List.reverseRecOn with
  | nil => rfl
  | append_singleton ops op ih =>
      by_cases hlate : (ops ++ [op]).length ≤ j
      · rw [returned_of_length_le hlate, takenBy_of_length_le hlate]
      rw [List.length_append, List.length_singleton, Nat.not_le, Nat.lt_succ_iff_lt_or_eq] at hlate
      rw [takenBy_append_singleton, if_neg nofun, List.append_nil]
      obtain hj | rfl := hlate
      · rw [returned_append_of_lt hj, ih, takenBy]
        congr 1
        refine List.filter_congr fun x _ => ?_
        cases taker? ops x with
        | none =>
            cases op.takes x.2 with
            | false => rfl
            | true => simp [Nat.ne_of_gt hj]
        | some i => rfl
      · rw [returned_append_last, pending_after, filter_takenBy_none]
        congr 1
        refine List.filter_congr fun x _ => ?_
        cases htaker : taker? ops x with
        | none => simp
        | some i => simp [Nat.ne_of_lt (taker?_lt htaker)]

/-- A registration is taken by a later match or a later drain. -/
theorem takes_of_taker?
    (h : taker? ops x = some j) :
    x.1 < j ∧ ((∃ event frame, ops[j]? = some (.take event frame) ∧
      x.2.location.matches event frame = true) ∨ ops[j]? = some .drain) := by
  obtain ⟨hlater, op, hop, htakes⟩ := taker?_eq_some h
  refine ⟨hlater, ?_⟩
  cases op with
  | register c => cases htakes
  | take event frame => exact .inl ⟨event, frame, hop, htakes⟩
  | drain => exact .inr hop

theorem pairwise_registrations
    (ops : List Operation) :
    (registrations ops).Pairwise fun x y => x.1 < y.1 := by
  induction ops using List.reverseRecOn with
  | nil => exact .nil
  | append_singleton ops op ih =>
      rw [registrations_append_singleton, List.pairwise_append]
      refine ⟨ih, ?_, fun x hx y hy => ?_⟩
      · cases op.registered? <;> simp
      · obtain ⟨c, -, rfl⟩ := Option.map_eq_some_iff.mp (Option.mem_toList.mp hy)
        exact lt_length_of_mem_registrations hx

end Runs

/-- Over any run the number is that of the pending callbacks.  Whatever was registered is
pending if nothing took it since, and otherwise was returned once, by the first operation that
took it: at an event that it waited for, or when the registry was drained.  What a scan removes
at an event are all that wait for it, and what it leaves are the others, both in the order of
their registration. -/
theorem pending_or_returned_once
    (ops : List Operation) :
    (after ops).count = (after ops).pending.length ∧
    (after ops).pending = takenBy ops none ∧
    (∀ j, returned ops j = takenBy ops (some j)) ∧
    (∀ x j, taker? ops x = some j → x.1 < j ∧
      ((∃ event frame, ops[j]? = some (.take event frame) ∧
        x.2.location.matches event frame = true) ∨ ops[j]? = some .drain)) ∧
    (∀ x, x ∈ registrations ops ↔ ops[x.1]? = some (.register x.2)) ∧
    (registrations ops).Pairwise (fun x y => x.1 < y.1) ∧
    ∀ event frame, ∃ taken left,
      (after ops).takeMatching event frame = (taken, .ofPending left) ∧
      sweep (fun c => c.location.matches event frame) [] 0 (after ops).pending = (taken, left) ∧
      taken = (after ops).pending.filter (fun c => c.location.matches event frame) ∧
      left = (after ops).pending.filter fun c => !c.location.matches event frame :=
  ⟨isCounted_after ops, pending_after ops, returned_eq ops, fun _ _ => takes_of_taker?,
    fun _ => mem_registrations_iff, pairwise_registrations ops, fun event frame =>
      ⟨_, _, takeMatching_eq (isCounted_after ops) event frame, sweep_eq _ [] [] _, rfl, rfl⟩⟩

/-- Spans of an activation that is left. -/
def leaving : DeferredCallback := ⟨⟨"app.py", "f", 1, .methodExit⟩, .closeSpans []⟩

/-- Two equal callbacks are registered, the registry is drained, and one more is registered. -/
def drained : List Operation := [.register leaving, .register leaving, .drain, .register leaving]

/-- The same callback registered twice, and once more behind the drain. -/
theorem pending_or_returned_once_drained :
    taker? drained (1, leaving) = some 2 ∧ drained[2]? = some .drain ∧
      returned drained 2 = [leaving, leaving] ∧ (after drained).pending = [leaving] := by
  have htaker : taker? drained (1, leaving) = some 2 := by decide
  obtain ⟨-, hpending, hreturned, htakes, -⟩ := pending_or_returned_once drained
  obtain ⟨-, ⟨event, frame, htake, -⟩ | hdrain⟩ := htakes (1, leaving) 2 htaker
  · cases htake
  · exact ⟨htaker, hdrain, (hreturned 2).trans (by decide), hpending.trans (by decide)⟩

end CallbackRegistry
end LiveProbe
