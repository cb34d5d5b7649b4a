import LiveProbe.Delivery.Error

/-!
# Pool of workers

A bounded queue of tasks and the workers that drain it.

**Algorithm.** A task waits until a worker takes it, in the order of submission.
Beside the tasks stands the number of outstanding ones, which submission raises and
the end of a task lowers. A shutdown refuses further tasks at once and ends when
nothing is outstanding or its time is up.

**Results.**
* `measure_advance?`: tasks that end on their own are worked off.
-/

namespace LiveProbe

/-- Tasks and workers. -/
structure TaskPool (τ : Type) where
  workers : Nat
  capacity : Nat
  waiting : List τ
  running : List τ
  /-- The tasks that ended, in order. -/
  finished : List τ
  /-- The number of outstanding tasks. -/
  pending : Nat
  isShutDown : Bool

namespace TaskPool

variable {τ : Type}

/-- An idle pool with at least one worker and room for one task. -/
def ofSize (workers capacity : Nat) : TaskPool τ where
  workers := max workers 1
  capacity := max capacity 1
  waiting := []
  running := []
  finished := []
  pending := 0
  isShutDown := false

/-- Hands in a task, or refuses it and leaves the pool as it is. -/
def submit (p : TaskPool τ) (task : τ) : Except TaskError Unit × TaskPool τ :=
  if p.isShutDown then (.error .shutDown, p)
  else if p.capacity ≤ p.waiting.length then (.error (.queueFull p.capacity), p)
  else (.ok (), { p with waiting := p.waiting ++ [task], pending := p.pending + 1 })

/-- An idle worker takes the task that waits longest. -/
def take? (p : TaskPool τ) : Option (TaskPool τ) :=
  match p.waiting with
  | [] => none
  | task :: rest =>
    if p.running.length < p.workers then
      some { p with waiting := rest, running := p.running ++ [task] }
    else none

/-- Hands in a task, which a worker that is idle takes at once. -/
def enqueue (p : TaskPool τ) (task : τ) : Except TaskError Unit × TaskPool τ :=
  let (answer, p) := p.submit task
  (answer, p.take?.getD p)

/-- The running task at a position ends, whether by itself or by a panic. -/
def finish? (p : TaskPool τ) (i : Nat) : Option (TaskPool τ) :=
  match p.running[i]? with
  | none => none
  | some task =>
    some { p with
      running := p.running.eraseIdx i
      finished := p.finished ++ [task]
      pending := p.pending - 1 }

/-- The number of outstanding tasks is that of the waiting and running ones. -/
def IsBalanced (p : TaskPool τ) : Prop := p.pending = p.waiting.length + p.running.length

/-! ### Unhindered work -/

/-- The next step of workers that always have time: the first running task that is
not stuck ends, and else an idle worker takes a task. -/
def advance? (stuck : τ → Bool) (p : TaskPool τ) : Option (TaskPool τ) :=
  match p.running.findIdx? fun t => !stuck t with
  | some i => p.finish? i
  | none => p.take?

theorem measure_advance? {stuck : τ → Bool} {p q : TaskPool τ} (h : p.advance? stuck = some q) :
    2 * q.waiting.length + q.running.length < 2 * p.waiting.length + p.running.length := by
  unfold advance? at h
  split at h
  · next i _ =>
    unfold finish? at h
    split at h
    · cases h
    · next ht =>
      injection h with h
      subst h
      have hi := (List.getElem?_eq_some_iff.1 ht).1
      simp only [List.length_eraseIdx_of_lt hi]
      omega
  · unfold take? at h
    split at h
    · cases h
    · next hw =>
      split at h
      · injection h with h
        subst h
        simp only [hw, List.length_cons, List.length_append, List.length_nil]
        omega
      · cases h

/-- The pool after all that its workers can do now. -/
def settle (stuck : τ → Bool) (p : TaskPool τ) : TaskPool τ :=
  match _h : p.advance? stuck with
  | none => p
  | some q => settle stuck q
termination_by 2 * p.waiting.length + p.running.length
decreasing_by exact measure_advance? _h

/-! ### Shutdown -/

/-- Refuses tasks from now on. -/
def beginShutdown (p : TaskPool τ) : TaskPool τ := { p with isShutDown := true }

/-- The answer at the end of a shutdown. -/
def drained (p : TaskPool τ) : Except TaskError Unit :=
  if p.pending = 0 then .ok () else .error (.drainTimeout p.pending)

/-- Shuts down, with all that the workers can do meanwhile. A second shutdown does
nothing. -/
def shutdown (stuck : τ → Bool) (p : TaskPool τ) : Except TaskError Unit × TaskPool τ :=
  if p.isShutDown then (.ok (), p)
  else
    let p := p.beginShutdown.settle stuck
    (p.drained, p)

end TaskPool
end LiveProbe
