import Mathlib.Data.List.Perm.Basic
import LiveProbe.Delivery.Pool

/-!
# Books of a pool

Where each accepted task of a pool is, and what is counted as outstanding.

**Invariant.**  The accepted tasks are those that workers took, in their order, and then those
that wait.  The taken ones have ended or run.  The waiting and the running ones are counted as
outstanding, and as many more as are held back (`TaskPool.Books`).

**Results.**
* `Books.count`, `Books.uncount`, `Books.send`: the books in the course of a submission.
* `Books.take?`, `Books.finish?`: the books when a worker takes a task, and when one ends.
* `Books.idle`: where nothing is outstanding, nothing waits or runs.
-/

namespace LiveProbe
namespace TaskPool

variable {τ : Type}

/-- Where each accepted task of a pool is, and what is counted as outstanding: the waiting and
the running tasks, and as many more as are held back. -/
structure Books (accepted started : List τ) (held : Nat) (p : TaskPool τ) : Prop where
  room : p.waiting.length ≤ p.capacity
  busy : p.running.length ≤ p.workers
  pending : p.pending = p.waiting.length + p.running.length + held
  order : accepted = started ++ p.waiting
  kept : started.Perm (p.finished ++ p.running)

section Books

variable {accepted started : List τ} {held : Nat} {p q : TaskPool τ}

theorem books_ofSize
    (workers capacity : Nat) :
    Books [] [] 0 (ofSize workers capacity : TaskPool τ) where
  room := Nat.zero_le _
  busy := Nat.zero_le _
  pending := rfl
  order := rfl
  kept := .nil

/-- A submission counts its task before it is queued. -/
theorem Books.count
    (h : p.Books accepted started held) :
    Books accepted started (held + 1) { p with pending := p.pending + 1 } :=
  { h with pending := congrArg (· + 1) h.pending }

theorem Books.uncount
    (h : p.Books accepted started (held + 1)) :
    Books accepted started held { p with pending := p.pending - 1 } :=
  { h with pending := congrArg (· - 1) h.pending }

theorem Books.send
    (h : p.Books accepted started (held + 1))
    (hroom : p.waiting.length < p.capacity)
    (task : τ) :
    Books (accepted ++ [task]) started held { p with waiting := p.waiting ++ [task] } := by
  refine { h with room := ?_, pending := ?_, order := ?_ }
  · rw [List.length_append]
    exact hroom
  · simp only [h.pending, List.length_append, List.length_singleton]
    omega
  · rw [h.order, List.append_assoc]

/-- A worker that is idle takes the task in front. -/
theorem take?_eq_some
    (hq : p.take? = some q) :
    ∃ task rest, p.waiting = task :: rest ∧ p.running.length < p.workers ∧
      q = { p with waiting := rest, running := p.running ++ [task] } := by
  unfold TaskPool.take? at hq
  split at hq
  · cases hq
  · next task rest hwaiting =>
      split at hq
      · next hidle =>
          cases hq
          exact ⟨task, rest, hwaiting, hidle, rfl⟩
      · cases hq

theorem finish?_eq_some
    {i : Nat}
    (hq : p.finish? i = some q) :
    ∃ hi : i < p.running.length,
      q = { p with
        running := p.running.eraseIdx i
        finished := p.finished ++ [p.running[i]]
        pending := p.pending - 1 } := by
  unfold TaskPool.finish? at hq
  split at hq
  · cases hq
  · next task htask =>
      cases hq
      obtain ⟨hi, rfl⟩ := List.getElem?_eq_some_iff.mp htask
      exact ⟨hi, rfl⟩

/-- A task that is taken is started, in the order of acceptance. -/
theorem Books.take?
    (h : p.Books accepted started held)
    (hq : p.take? = some q) :
    q.Books accepted (started ++ p.waiting.take 1) held := by
  obtain ⟨task, rest, hwaiting, hidle, rfl⟩ := take?_eq_some hq
  have hroom := h.room
  have hpending := h.pending
  have horder := h.order
  rw [hwaiting] at hroom hpending horder
  refine { h with room := ?_, busy := ?_, pending := ?_, order := ?_, kept := ?_ }
  · exact Nat.le_of_succ_le hroom
  · rw [List.length_append]
    exact hidle
  · simp only [hpending, List.length_append, List.length_cons, List.length_nil]
    omega
  · rw [hwaiting, horder, List.append_assoc]
    rfl
  · rw [hwaiting, ← List.append_assoc]
    exact h.kept.append_right [task]

theorem Books.finish?
    (h : p.Books accepted started held)
    {i : Nat}
    (hq : p.finish? i = some q) :
    q.Books accepted started held ∧ q.pending + 1 = p.pending := by
  obtain ⟨hi, rfl⟩ := finish?_eq_some hq
  have hlength := List.length_eraseIdx_of_lt hi
  have hpending := h.pending
  refine ⟨{ h with busy := ?_, pending := ?_, kept := ?_ }, ?_⟩
  · rw [hlength]
    exact Nat.le_trans (Nat.sub_le _ 1) h.busy
  · simp only [hlength, hpending]
    omega
  · rw [List.append_assoc]
    exact h.kept.trans ((List.getElem_cons_eraseIdx_perm hi).symm.append_left _)
  · dsimp only
    omega

/-- With nothing outstanding, nothing waits or runs. -/
theorem Books.idle
    (h : p.Books accepted started held)
    (hpending : p.pending = 0) :
    p.waiting = [] ∧ p.running = [] := by
  have hcount := h.pending
  constructor <;> refine List.eq_nil_of_length_eq_zero ?_ <;> omega

/-- A shutdown that succeeds leaves nothing outstanding. -/
theorem drained_eq_ok
    (h : p.drained = .ok ()) :
    p.pending = 0 := by
  unfold drained at h
  split at h
  · assumption
  · cases h

theorem drained_eq_error
    {e : TaskError}
    (h : p.drained = .error e) :
    0 < p.pending ∧ e = .drainTimeout p.pending := by
  unfold drained at h
  split at h
  · cases h
  · next hpending =>
      cases h
      exact ⟨Nat.pos_of_ne_zero hpending, rfl⟩

end Books
end TaskPool
end LiveProbe
