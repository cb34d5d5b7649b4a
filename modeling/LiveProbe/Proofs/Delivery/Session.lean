import Mathlib.Logic.Relation
import LiveProbe.Context.Closing
import LiveProbe.Proofs.Delivery.Books

/-!
# Sessions of a pool

A pool between its start and the end of its shutdown, with all that threads do to it in between.

**Steps.**  A submission asks first whether the pool is shut down, then counts its task while it
holds the sender of the queue, and at last sends it, or takes the count back where the queue is
full.  Workers take and end tasks, by themselves or by a panic.  The first shutdown raises the
flag, waits until nothing is outstanding or its time is up, drops the sender, and then waits for
the workers to retire unless it has to report what is left.  A worker retires once the queue is
empty and the sender gone.  The steps of all threads come in any order (`PoolSession.Reaches`).

**Invariant.**  The number of outstanding tasks is that of the waiting and running ones, and one
more while a submission holds the sender; the accepted tasks are those that were started and then
those that wait; the started ones have ended or run (`TaskPool.Books`, `PoolSession.Accounts`).

**Results.**
* `Accounts.step`: each step keeps the accounts.
* `settled_step`, `refused_step`: a submission that is refused leaves no trace, and why it is.
* `exists_woken`: a shutdown answers what it found when it woke.
* `reaches_submit`, `reaches_push`, `reaches_shutdown`: what threads do without interruption.
* `tasks_accounted_for`: what is true in the course of any session.
-/

namespace LiveProbe

/-- How far the first shutdown of a pool has come. -/
inductive ShutdownPhase
  | serving
  /-- Waiting, while its time lasts, until nothing is outstanding. -/
  | draining (expired : Bool)
  | woken (answer : Except TaskError Unit)
  /-- The sender of the queue is gone. -/
  | closed (answer : Except TaskError Unit)
  | answered (answer : Except TaskError Unit)

namespace ShutdownPhase

/-- The sender of the queue is gone. -/
def isClosed : ShutdownPhase → Bool
  | closed _ | answered _ => true
  | _ => false

/-- The answer, once it is known. -/
def answer? : ShutdownPhase → Option (Except TaskError Unit)
  | woken answer | closed answer | answered answer => some answer
  | _ => none

end ShutdownPhase

/-- A pool with the threads that are at it. -/
structure PoolSession (τ : Type) where
  pool : TaskPool τ
  phase : ShutdownPhase
  /-- Submissions that found the pool open. -/
  entering : List τ
  /-- The submission that holds the sender, with its task counted. -/
  sending : Option τ
  /-- The submissions that were answered, in the order of the answers. -/
  answers : List (τ × Except TaskError Unit)
  /-- The tasks that workers took, in their order. -/
  started : List τ
  /-- The number of workers that are gone. -/
  retired : Nat

/-- What one of the threads does. -/
inductive PoolMove (τ : Type)
  | call (task : τ)
  | count (i : Nat)
  | send
  | take
  | finish (i : Nat)
  | retire
  | shutDown
  | expire
  | wake
  | close
  | answer

/-- It is done by a submission. -/
def PoolMove.submits {τ : Type} : PoolMove τ → Bool
  | call _ | count _ | send => true
  | _ => false

namespace PoolSession

variable {τ : Type}

/-- A pool that was just started. -/
def ofSize (workers capacity : Nat) : PoolSession τ :=
  ⟨.ofSize workers capacity, .serving, [], none, [], [], 0⟩

/-- A submission is answered. -/
def reply (s : PoolSession τ) (task : τ) (answer : Except TaskError Unit) : PoolSession τ :=
  { s with answers := s.answers ++ [(task, answer)] }

/-- The steps of a session. -/
inductive Step (s : PoolSession τ) : PoolMove τ → PoolSession τ → Prop
  | refused (task : τ) (hbegun : s.pool.isShutDown = true) :
      Step s (.call task) (s.reply task (.error .shutDown))
  | entered (task : τ) (hopen : s.pool.isShutDown = false) :
      Step s (.call task) { s with entering := s.entering ++ [task] }
  | turnedAway {i : Nat} {task : τ} (hfree : s.sending = none) (htask : s.entering[i]? = some task)
      (hclosed : s.phase.isClosed = true) :
      Step s (.count i)
        ({ s with entering := s.entering.eraseIdx i }.reply task (.error .shutDown))
  | counted {i : Nat} {task : τ} (hfree : s.sending = none) (htask : s.entering[i]? = some task)
      (hopen : s.phase.isClosed = false) :
      Step s (.count i)
        { s with
          pool := { s.pool with pending := s.pool.pending + 1 }
          entering := s.entering.eraseIdx i
          sending := some task }
  | full {task : τ} (hheld : s.sending = some task)
      (hfull : s.pool.capacity ≤ s.pool.waiting.length) :
      Step s .send
        ({ s with
          pool := { s.pool with pending := s.pool.pending - 1 }
          sending := none }.reply task (.error (.queueFull s.pool.capacity)))
  | sent {task : τ} (hheld : s.sending = some task)
      (hroom : s.pool.waiting.length < s.pool.capacity) :
      Step s .send
        ({ s with
          pool := { s.pool with waiting := s.pool.waiting ++ [task] }
          sending := none }.reply task (.ok ()))
  | took {pool : TaskPool τ} (hpool : s.pool.take? = some pool) :
      Step s .take { s with pool := pool, started := s.started ++ s.pool.waiting.take 1 }
  /-- A task ends, by itself or by a panic. -/
  | finished {i : Nat} {pool : TaskPool τ} (hpool : s.pool.finish? i = some pool) :
      Step s (.finish i) { s with pool := pool }
  | retired (hclosed : s.phase.isClosed = true) (hempty : s.pool.waiting = [])
      (hidle : s.pool.running.length + s.retired < s.pool.workers) :
      Step s .retire { s with retired := s.retired + 1 }
  /-- Any shutdown but the first is over at once. -/
  | repeated (hbegun : s.pool.isShutDown = true) : Step s .shutDown s
  | begun (hopen : s.pool.isShutDown = false) :
      Step s .shutDown { s with pool := s.pool.beginShutdown, phase := .draining false }
  | expired {late : Bool} (hphase : s.phase = .draining late) :
      Step s .expire { s with phase := .draining true }
  | woken {late : Bool} (hphase : s.phase = .draining late)
      (hdue : late = true ∨ s.pool.pending = 0) :
      Step s .wake { s with phase := .woken s.pool.drained }
  | closed {answer : Except TaskError Unit} (hphase : s.phase = .woken answer)
      (hfree : s.sending = none) :
      Step s .close { s with phase := .closed answer }
  /-- Where nothing was outstanding, all workers are gone before. -/
  | answered {answer : Except TaskError Unit} (hphase : s.phase = .closed answer)
      (hjoined : answer = .ok () → s.retired = s.pool.workers) :
      Step s .answer { s with phase := .answered answer }

/-- Steps lead from one session to another. -/
def Reaches : PoolSession τ → PoolSession τ → Prop :=
  Relation.ReflTransGen fun s t => ∃ move, s.Step move t

theorem Reaches.step
    {s t u : PoolSession τ} {move : PoolMove τ}
    (h : s.Reaches t)
    (hstep : t.Step move u) :
    s.Reaches u :=
  h.tail ⟨move, hstep⟩

theorem Reaches.trans
    {s t u : PoolSession τ}
    (h : s.Reaches t)
    (hlater : t.Reaches u) :
    s.Reaches u :=
  Relation.ReflTransGen.trans h hlater

/-! ### Accounts -/

/-- The tasks of submissions that were accepted. -/
def accepted (s : PoolSession τ) : List τ :=
  s.answers.filterMap fun
    | (task, .ok _) => some task
    | (_, .error _) => none

/-- Where every task is, and how far the shutdown has come. -/
structure Accounts (workers capacity : Nat) (s : PoolSession τ) : Prop where
  size : s.pool.workers = max workers 1 ∧ s.pool.capacity = max capacity 1
  books : s.pool.Books s.accepted s.started s.sending.toList.length
  begun : s.pool.isShutDown = true ↔ s.phase ≠ .serving
  closed : s.phase.isClosed = true → s.sending = none
  manned : s.pool.running.length + s.retired ≤ s.pool.workers
  emptied : s.retired ≠ 0 → s.phase.isClosed = true ∧ s.pool.waiting = []
  joined : s.phase = .answered (.ok ()) → s.retired = s.pool.workers

theorem accounts_ofSize
    (workers capacity : Nat) :
    (ofSize workers capacity : PoolSession τ).Accounts workers capacity where
  size := ⟨rfl, rfl⟩
  books := TaskPool.books_ofSize workers capacity
  begun := by simp [ofSize, TaskPool.ofSize]
  closed _ := rfl
  manned := Nat.zero_le _
  emptied h := absurd rfl h
  joined h := nomatch h

section Steps

variable {workers capacity : Nat} {s t u : PoolSession τ} {move : PoolMove τ}

theorem accepted_reply_ok
    (s : PoolSession τ) (task : τ) :
    (s.reply task (.ok ())).accepted = s.accepted ++ [task] := by
  simp [accepted, reply]

theorem accepted_reply_error
    (s : PoolSession τ) (task : τ) (e : TaskError) :
    (s.reply task (.error e)).accepted = s.accepted := by
  simp [accepted, reply]

theorem Accounts.reply_error
    (h : s.Accounts workers capacity)
    (task : τ) (e : TaskError) :
    (s.reply task (.error e)).Accounts workers capacity := by
  refine { h with books := ?_ }
  rw [accepted_reply_error]
  exact h.books

/-- The shutdown goes on while the pool stays as it is. -/
theorem Accounts.proceed
    (h : s.Accounts workers capacity)
    {phase : ShutdownPhase}
    (hbegun : s.phase ≠ .serving ∧ phase ≠ .serving)
    (hclosed : phase.isClosed = true → s.sending = none)
    (hstays : s.phase.isClosed = true → phase.isClosed = true)
    (hjoined : phase = .answered (.ok ()) → s.retired = s.pool.workers) :
    Accounts workers capacity { s with phase := phase } where
  size := h.size
  books := h.books
  begun := by simp [h.begun, hbegun.1, hbegun.2]
  closed := hclosed
  manned := h.manned
  emptied hretired := ⟨hstays (h.emptied hretired).1, (h.emptied hretired).2⟩
  joined := hjoined

/-- While the sender is there, so are the workers. -/
theorem Accounts.retired_eq_zero
    (h : s.Accounts workers capacity)
    (hopen : s.phase.isClosed = false ∨ s.pool.waiting ≠ []) :
    s.retired = 0 := by
  by_contra hretired
  obtain ⟨hclosed, hempty⟩ := h.emptied hretired
  rcases hopen with hopen | hwaiting
  · rw [hclosed] at hopen
    cases hopen
  · exact hwaiting hempty

/-- While a task is handed in, the channel is open. -/
theorem Accounts.isClosed_eq_false
    (h : s.Accounts workers capacity)
    (hheld : s.sending ≠ none) :
    s.phase.isClosed = false :=
  Bool.eq_false_iff.mpr fun hclosed => hheld (h.closed hclosed)

/-- Where all workers are gone, nothing is left. -/
theorem Accounts.idle_of_joined
    (h : s.Accounts workers capacity)
    (hjoined : s.retired = s.pool.workers) :
    s.pool.waiting = [] ∧ s.pool.running = [] := by
  have hmanned := h.manned
  have hworkers := h.size.1
  exact ⟨(h.emptied (by omega)).2, List.eq_nil_of_length_eq_zero (by omega)⟩

/-- A worker that takes a task keeps the accounts. -/
theorem Accounts.took
    (h : s.Accounts workers capacity)
    {pool : TaskPool τ}
    (hpool : s.pool.take? = some pool) :
    Accounts workers capacity
      { s with pool := pool, started := s.started ++ s.pool.waiting.take 1 } := by
  have hbooks := h.books.take? hpool
  obtain ⟨task, rest, hwaiting, hidle, rfl⟩ := TaskPool.take?_eq_some hpool
  have hretired : s.retired = 0 :=
    h.retired_eq_zero (.inr (hwaiting ▸ List.cons_ne_nil _ _))
  refine { h with books := hbooks, manned := ?_, emptied := fun hsome => absurd hretired hsome }
  rw [hretired, List.length_append]
  exact hidle

theorem Accounts.finished
    (h : s.Accounts workers capacity)
    {i : Nat} {pool : TaskPool τ}
    (hpool : s.pool.finish? i = some pool) :
    Accounts workers capacity { s with pool := pool } := by
  have hbooks := (h.books.finish? hpool).1
  have hmanned := h.manned
  obtain ⟨hi, rfl⟩ := TaskPool.finish?_eq_some hpool
  refine { h with books := hbooks, manned := ?_ }
  simp only [List.length_eraseIdx_of_lt hi]
  omega

theorem Accounts.step
    (h : s.Accounts workers capacity)
    (hstep : s.Step move t) :
    t.Accounts workers capacity := by
  have hbooks := h.books
  cases hstep with
  | refused task hbegun => exact h.reply_error task _
  | entered task hopen => exact { h with }
  | @turnedAway i task hfree htask hclosed =>
      have hleft : Accounts workers capacity { s with entering := s.entering.eraseIdx i } :=
        { h with }
      exact hleft.reply_error task _
  | counted hfree htask hopen =>
      rw [hfree] at hbooks
      exact { h with
        books := hbooks.count
        closed := fun hclosed => absurd hclosed (by simp [hopen]) }
  | @full task hheld hfull =>
      rw [hheld] at hbooks
      refine Accounts.reply_error ?_ task _
      exact { h with books := hbooks.uncount, closed := fun _ => rfl }
  | @sent task hheld hroom =>
      have hopen := h.isClosed_eq_false (by simp [hheld])
      have hretired := h.retired_eq_zero (.inl hopen)
      rw [hheld] at hbooks
      refine { h with
        books := ?_
        closed := fun _ => rfl
        emptied := fun hsome => absurd hretired hsome }
      rw [accepted_reply_ok]
      exact hbooks.send hroom task
  | took hpool => exact h.took hpool
  | finished hpool => exact h.finished hpool
  | retired hclosed hempty hidle =>
      exact { h with
        manned := hidle
        emptied := fun _ => ⟨hclosed, hempty⟩
        joined := fun hanswered => by
          have hjoined := h.joined hanswered
          omega }
  | repeated hbegun => exact h
  | begun hopen =>
      have hserving : s.phase = .serving := by
        by_contra hphase
        exact absurd (h.begun.mpr hphase) (by simp [hopen])
      have hretired := h.retired_eq_zero (.inl (congrArg ShutdownPhase.isClosed hserving))
      exact { h with
        books := { hbooks with }
        begun := by simp [TaskPool.beginShutdown]
        closed := nofun
        emptied := fun hsome => absurd hretired hsome
        joined := nofun }
  | expired hphase => exact h.proceed (by simp [hphase]) nofun (by rw [hphase]; nofun) nofun
  | woken hphase hdue => exact h.proceed (by simp [hphase]) nofun (by rw [hphase]; nofun) nofun
  | closed hphase hfree =>
      exact h.proceed (by simp [hphase]) (fun _ => hfree) (fun _ => rfl) nofun
  | answered hphase hjoined =>
      have hfree : s.sending = none := h.closed (congrArg ShutdownPhase.isClosed hphase)
      refine h.proceed (by simp [hphase]) (fun _ => hfree) (fun _ => rfl) fun hanswered => ?_
      cases hanswered
      exact hjoined rfl

/-- The accounts hold in every state that is reached. -/
theorem Accounts.reaches
    (h : s.Accounts workers capacity)
    (hrun : s.Reaches t) :
    t.Accounts workers capacity := by
  induction hrun with
  | refl => exact h
  | tail _ hstep ih => exact ih.step hstep.choose_spec

/-! ### Refusals -/

/-- The pool without the count of a submission under way. -/
def settled (s : PoolSession τ) : TaskPool τ :=
  { s.pool with pending := s.pool.pending - s.sending.toList.length }

/-- Apart from a submission under way, all outstanding tasks wait or run. -/
theorem balanced_settled
    (h : s.Accounts workers capacity) :
    s.settled.IsBalanced := by
  rw [TaskPool.IsBalanced, settled, h.books.pending]
  exact Nat.add_sub_cancel _ _

theorem reply_eq_append
    {task other : τ} {answer given : Except TaskError Unit}
    (h : (s.reply task answer).answers = s.answers ++ [(other, given)]) :
    answer = given := by
  simp only [reply, List.append_cancel_left_eq, List.cons.injEq, Prod.mk.injEq] at h
  exact h.1.2

/-- A submission changes nothing unless it is accepted. -/
theorem settled_step
    (hstep : s.Step move t)
    (hsubmits : move.submits = true)
    (haccepted : t.accepted = s.accepted) :
    t.settled = s.settled := by
  cases hstep with
  | refused task hbegun => rfl
  | entered task hopen => rfl
  | turnedAway hfree htask hclosed => rfl
  | counted hfree htask hopen =>
      rw [settled, settled, hfree]
      rfl
  | full hheld hfull =>
      rw [settled, settled, hheld]
      rfl
  | @sent task hheld hroom =>
      rw [accepted_reply_ok] at haccepted
      exact absurd (List.append_right_eq_self.mp haccepted) (List.cons_ne_nil _ _)
  | _ => cases hsubmits

/-- A submission is refused after a shutdown has begun, or where as many tasks wait as may. -/
theorem refused_step
    (h : s.Accounts workers capacity)
    {task : τ} {e : TaskError}
    (hstep : s.Step move t)
    (hanswer : t.answers = s.answers ++ [(task, .error e)]) :
    e = .shutDown ∧ s.pool.isShutDown = true ∨
      e = .queueFull s.pool.capacity ∧ s.pool.waiting.length = s.pool.capacity := by
  cases hstep with
  | refused task hbegun =>
      cases reply_eq_append hanswer
      exact .inl ⟨rfl, hbegun⟩
  | turnedAway hfree htask hclosed =>
      have hbegun : s.phase ≠ .serving := fun hserving => by
        rw [hserving] at hclosed
        cases hclosed
      cases reply_eq_append (s := s) hanswer
      exact .inl ⟨rfl, h.begun.mpr hbegun⟩
  | full hheld hfull =>
      cases reply_eq_append (s := s) hanswer
      exact .inr ⟨rfl, Nat.le_antisymm h.books.room hfull⟩
  | sent hheld hroom => cases reply_eq_append (s := s) hanswer
  | _ => simp at hanswer

/-- Once a shutdown has begun, submissions are refused at once. -/
theorem step_call_iff
    (h : s.pool.isShutDown = true)
    (task : τ) :
    s.Step (.call task) t ↔ t = s.reply task (.error .shutDown) := by
  constructor
  · intro hstep
    cases hstep with
    | refused task hbegun => rfl
    | entered task hopen =>
        rw [h] at hopen
        cases hopen
  · rintro rfl
    exact .refused task h

theorem isShutDown_step
    (h : s.pool.isShutDown = true)
    (hstep : s.Step move t) :
    t.pool.isShutDown = true := by
  cases hstep with
  | took hpool =>
      obtain ⟨_, _, _, _, rfl⟩ := TaskPool.take?_eq_some hpool
      exact h
  | finished hpool =>
      obtain ⟨_, rfl⟩ := TaskPool.finish?_eq_some hpool
      exact h
  | begun hopen => rfl
  | _ => exact h

theorem isShutDown_reaches
    (h : s.pool.isShutDown = true)
    (hrun : s.Reaches t) :
    t.pool.isShutDown = true := by
  induction hrun with
  | refl => exact h
  | tail _ hstep ih => exact isShutDown_step ih hstep.choose_spec

/-! ### Answers of the shutdown -/

/-- The answer of a shutdown is given once, at the end of its time or when nothing is outstanding.
-/
theorem answer?_step
    {answer : Except TaskError Unit}
    (hstep : s.Step move t)
    (h : t.phase.answer? = some answer) :
    s.phase.answer? = some answer ∨ ∃ late, s.phase = .draining late ∧
      (late = true ∨ s.pool.pending = 0) ∧ answer = s.pool.drained := by
  cases hstep with
  | begun hopen => cases h
  | expired hphase => cases h
  | woken hphase hdue => exact .inr ⟨_, hphase, hdue, (Option.some.inj h).symm⟩
  | closed hphase hfree =>
      rw [hphase]
      exact .inl h
  | answered hphase hjoined =>
      rw [hphase]
      exact .inl h
  | _ => exact .inl h

/-- An answer is what was found when the shutdown woke. -/
theorem exists_woken
    {answer : Except TaskError Unit}
    (hstart : s.phase.answer? = none)
    (hrun : s.Reaches t)
    (h : t.phase.answer? = some answer) :
    ∃ u late, s.Reaches u ∧ u.phase = .draining late ∧ (late = true ∨ u.pool.pending = 0) ∧
      answer = u.pool.drained ∧ u.Reaches t := by
  induction hrun with
  | refl =>
      rw [hstart] at h
      cases h
  | @tail u v hrun hstep ih =>
      obtain ⟨move, hstep⟩ := hstep
      rcases answer?_step hstep h with hbefore | ⟨late, hphase, hdue, hdrained⟩
      · obtain ⟨w, late, hw, hphase, hdue, hdrained, hlater⟩ := ih hbefore
        exact ⟨w, late, hw, hphase, hdue, hdrained, hlater.step hstep⟩
      · exact ⟨u, late, hrun, hphase, hdue, hdrained, .single ⟨move, hstep⟩⟩

/-- A shutdown that ends well has seen all accepted tasks end. -/
theorem drained_of_answered
    (h : s.Accounts workers capacity)
    (hanswered : s.phase = .answered (.ok ())) :
    s.pool.finished.Perm s.accepted ∧ s.pool.pending = 0 := by
  obtain ⟨hwaiting, hrunning⟩ := h.idle_of_joined (h.joined hanswered)
  have hfree : s.sending = none := h.closed (by rw [hanswered]; rfl)
  obtain ⟨-, -, hpending, horder, hkept⟩ := h.books
  rw [hwaiting, hrunning, hfree] at hpending
  rw [hwaiting, List.append_nil] at horder
  rw [hrunning, List.append_nil] at hkept
  exact ⟨horder ▸ hkept.symm, hpending⟩

/-- A shutdown that does not end well reports how many were outstanding when its time was up. -/
theorem late_of_answered
    {e : TaskError}
    (hrun : (ofSize workers capacity).Reaches s)
    (hanswered : s.phase = .answered (.error e)) :
    ∃ u, (ofSize workers capacity).Reaches u ∧ u.Reaches s ∧ u.phase = .draining true ∧
      0 < u.pool.pending ∧ e = .drainTimeout u.pool.pending := by
  obtain ⟨u, late, hbefore, hphase, hdue, hdrained, hafter⟩ :=
    exists_woken rfl hrun (congrArg ShutdownPhase.answer? hanswered)
  obtain ⟨hpositive, rfl⟩ := TaskPool.drained_eq_error hdrained.symm
  rcases hdue with rfl | hnothing
  · exact ⟨u, hbefore, hafter, hphase, hpositive, rfl⟩
  · exact absurd hnothing (Nat.ne_of_gt hpositive)

/-- Whatever lowers the number of outstanding tasks finds one that is counted. -/
theorem pending_pos
    (h : s.Accounts workers capacity)
    (hstep : s.Step move t)
    (hlowers : move = .send ∨ ∃ i, move = .finish i) :
    0 < s.pool.pending := by
  have hpending := h.books.pending
  rcases hlowers with rfl | ⟨i, rfl⟩
  · cases hstep with
    | full hheld hfull =>
        rw [hheld] at hpending
        exact Nat.lt_of_lt_of_eq (Nat.succ_pos _) hpending.symm
    | sent hheld hroom =>
        rw [hheld] at hpending
        exact Nat.lt_of_lt_of_eq (Nat.succ_pos _) hpending.symm
  · cases hstep with
    | finished hpool =>
        have hlower := (h.books.finish? hpool).2
        omega

/-! ### Threads without interruption -/

theorem Step.reaches
    (hstep : s.Step move t) :
    s.Reaches t := .single ⟨move, hstep⟩

/-- A submission that nobody interrupts. -/
theorem reaches_submit
    (h : s.Accounts workers capacity)
    (hfree : s.sending = none)
    (task : τ) :
    s.Reaches ({ s with pool := (s.pool.submit task).2 }.reply task (s.pool.submit task).1) := by
  rw [TaskPool.submit]
  split
  · next hbegun => exact Step.reaches (.refused task hbegun)
  · next hopen =>
      have hserving : s.phase = .serving := by
        by_contra hphase
        exact hopen (h.begun.mpr hphase)
      have hentered := Step.entered task (Bool.eq_false_iff.mpr hopen)
      have htask : (s.entering ++ [task])[s.entering.length]? = some task := by simp
      have hcounted := Step.counted (s := { s with entering := s.entering ++ [task] }) hfree htask
        (congrArg ShutdownPhase.isClosed hserving)
      have hrest : (s.entering ++ [task]).eraseIdx s.entering.length = s.entering := by
        simp [List.eraseIdx_append_of_length_le]
      rw [hrest] at hcounted
      have hheld := hentered.reaches.step hcounted
      obtain ⟨pool, phase, entering, sending, answers, started, retired⟩ := s
      cases hfree
      split
      · next hfull => exact hheld.step (.full rfl hfull)
      · next hroom => exact hheld.step (.sent rfl (Nat.lt_of_not_le hroom))

/-- What workers do by themselves are moves of the session. -/
theorem reaches_advance
    {stuck : τ → Bool} {q : TaskPool τ}
    (hq : s.pool.advance? stuck = some q) :
    ∃ started, s.Reaches { s with pool := q, started := started } := by
  unfold TaskPool.advance? at hq
  split at hq
  · exact ⟨_, Step.reaches (.finished hq)⟩
  · exact ⟨_, Step.reaches (.took hq)⟩

/-- Workers that nobody interrupts. -/
theorem reaches_settle
    (stuck : τ → Bool) (s : PoolSession τ) :
    ∃ started, s.Reaches { s with pool := s.pool.settle stuck, started := started } := by
  obtain ⟨p, hp⟩ : ∃ p, s.pool = p := ⟨_, rfl⟩
  rw [hp]
  induction p using TaskPool.settle.induct stuck generalizing s with
  | case1 p hidle =>
      rw [TaskPool.settle]
      split
      · refine ⟨s.started, ?_⟩
        cases hp
        exact .refl
      · next q hq =>
          rw [hidle] at hq
          cases hq
  | case2 p q hq ih =>
      subst hp
      obtain ⟨first, hfirst⟩ := reaches_advance hq
      obtain ⟨started, hrest⟩ := ih { s with pool := q, started := first } rfl
      refine ⟨started, hfirst.trans ?_⟩
      rw [TaskPool.settle]
      split
      · next hidle =>
          rw [hq] at hidle
          cases hidle
      · next q' hq' =>
          rw [hq] at hq'
          cases hq'
          exact hrest

/-- A worker that is idle takes the task that waits longest. -/
theorem reaches_take
    (s : PoolSession τ) :
    ∃ started, s.Reaches { s with pool := s.pool.take?.getD s.pool, started := started } := by
  rcases hpool : s.pool.take? with _ | pool
  · exact ⟨s.started, .refl⟩
  · exact ⟨_, Step.reaches (.took hpool)⟩

/-- A queued push is a submission, and a task that is refused is a failed delivery. -/
theorem pushSnapshot_queued
    {c : Collaborators}
    (hpush : c.push = .queued)
    (reentry : Reentry) (snapshot : Snapshot) (a : AgentState) :
    ((a.pushSnapshot c reentry snapshot).1 =
        match (a.pool.submit snapshot).1 with
        | .ok _ => .delivered
        | .error _ => .failed) ∧
      (a.pushSnapshot c reentry snapshot).2.pool =
        (a.pool.submit snapshot).2.take?.getD (a.pool.submit snapshot).2 := by
  rw [AgentState.pushSnapshot, hpush]
  simp only [TaskPool.enqueue]
  rcases a.pool.submit snapshot with ⟨_ | _, pool⟩ <;> exact ⟨rfl, rfl⟩

/-- A snapshot that is pushed is submitted, and one that counts as delivered is accepted. -/
theorem reaches_push
    {c : Collaborators} {a : AgentState} {s : PoolSession Snapshot}
    (h : s.Accounts workers capacity)
    (hfree : s.sending = none)
    (hpool : s.pool = a.pool)
    (hpush : c.push = .queued)
    (reentry : Reentry) (snapshot : Snapshot) :
    ∃ t, s.Reaches t ∧ t.pool = (a.pushSnapshot c reentry snapshot).2.pool ∧
      t.accepted = s.accepted ++
        if (a.pushSnapshot c reentry snapshot).1 = .delivered then [snapshot] else [] := by
  have hsubmit := reaches_submit h hfree snapshot
  obtain ⟨started, htake⟩ := reaches_take
    ({ s with pool := (s.pool.submit snapshot).2 }.reply snapshot (s.pool.submit snapshot).1)
  obtain ⟨houtcome, hafter⟩ := pushSnapshot_queued hpush reentry snapshot a
  refine ⟨_, hsubmit.trans htake, ?_, ?_⟩
  · rw [hafter, ← hpool]
    rfl
  · rw [houtcome, ← hpool]
    rcases (s.pool.submit snapshot).1 with e | _
    · exact (accepted_reply_error _ snapshot e).trans (List.append_nil _).symm
    · exact accepted_reply_ok _ snapshot

/-- Workers without work leave one after the other. -/
theorem reaches_retired
    (hclosed : s.phase.isClosed = true)
    (hwaiting : s.pool.waiting = [])
    (hrunning : s.pool.running = [])
    {count : Nat}
    (hcount : s.retired + count ≤ s.pool.workers) :
    s.Reaches { s with retired := s.retired + count } := by
  induction count with
  | zero => exact .refl
  | succ count ih =>
      have hidle : s.pool.running.length + (s.retired + count) < s.pool.workers := by
        rw [hrunning, List.length_nil]
        omega
      exact (ih (by omega)).step (.retired hclosed hwaiting hidle)

/-- A shutdown that has dropped the sender comes to its end. -/
theorem reaches_answered
    (h : s.Accounts workers capacity)
    (hphase : s.phase = .closed s.pool.drained) :
    ∃ retired, s.Reaches { s with phase := .answered s.pool.drained, retired := retired } := by
  rcases hdrained : s.pool.drained with e | _
  · rw [hdrained] at hphase
    exact ⟨s.retired, Step.reaches (.answered hphase nofun)⟩
  · rw [hdrained] at hphase
    have hclosed : s.phase.isClosed = true := congrArg ShutdownPhase.isClosed hphase
    obtain ⟨hwaiting, hrunning⟩ := h.books.idle (TaskPool.drained_eq_ok hdrained)
    have hall : s.retired + (s.pool.workers - s.retired) = s.pool.workers :=
      Nat.add_sub_of_le (Nat.le_trans (Nat.le_add_left _ _) h.manned)
    have hretired := reaches_retired hclosed hwaiting hrunning (Nat.le_of_eq hall)
    rw [hall] at hretired
    exact ⟨s.pool.workers, hretired.step (.answered hphase fun _ => rfl)⟩

/-- A shutdown during which only the workers are at the pool. -/
theorem reaches_shutdown
    (h : s.Accounts workers capacity)
    (hopen : s.pool.isShutDown = false)
    (hfree : s.sending = none)
    (stuck : τ → Bool) :
    ∃ started retired, s.Reaches
      { s with
        pool := (s.pool.shutdown stuck).2
        phase := .answered (s.pool.shutdown stuck).1
        started := started
        retired := retired } := by
  rw [TaskPool.shutdown, if_neg (by simp [hopen])]
  obtain ⟨started, hsettled⟩ := reaches_settle stuck
    { s with pool := s.pool.beginShutdown, phase := .draining false }
  have hlate := ((Step.reaches (.begun hopen)).trans hsettled).step (.expired rfl)
  have hclosed := (hlate.step (.woken rfl (.inl rfl))).step (.closed rfl hfree)
  obtain ⟨retired, hanswered⟩ := reaches_answered (h.reaches hclosed) rfl
  exact ⟨started, retired, hclosed.trans hanswered⟩

/-! ### Every session -/

/-- What holds at any time of a session. -/
structure Guarantees (workers capacity : Nat) (s : PoolSession τ) : Prop where
  accounts : s.Accounts workers capacity
  balanced : s.settled.IsBalanced
  /-- Once a shutdown has begun, submissions are refused at once from then on. -/
  refusing : s.phase ≠ .serving → ∀ u task t, s.Reaches u →
    (u.Step (.call task) t ↔ t = u.reply task (.error .shutDown))
  /-- A submission that is not accepted leaves the pool as it is. -/
  traceless : ∀ move t, s.Step move t → move.submits = true → t.accepted = s.accepted →
    t.settled = s.settled
  /-- The queue is called full only where as many tasks wait as may. -/
  reasons : ∀ move t task e, s.Step move t → t.answers = s.answers ++ [(task, .error e)] →
    e = .shutDown ∧ s.pool.isShutDown = true ∨
      e = .queueFull s.pool.capacity ∧ s.pool.waiting.length = s.pool.capacity
  /-- What is counted down was counted. -/
  counted : ∀ move t, s.Step move t → (move = .send ∨ ∃ i, move = .finish i) →
    0 < s.pool.pending
  /-- A shutdown that ends well has seen all accepted tasks end. -/
  drained : s.phase = .answered (.ok ()) → s.pool.finished.Perm s.accepted ∧ s.pool.pending = 0
  /-- Any other reports how many were outstanding when its time was up. -/
  late : ∀ e, s.phase = .answered (.error e) →
    ∃ u, (ofSize workers capacity).Reaches u ∧ u.Reaches s ∧ u.phase = .draining true ∧
      0 < u.pool.pending ∧ e = .drainTimeout u.pool.pending
  /-- A submission or a shutdown without other submissions in between is that of the pool. -/
  submitted : s.sending = none → ∀ task,
    s.Reaches ({ s with pool := (s.pool.submit task).2 }.reply task (s.pool.submit task).1)
  shut : s.sending = none → s.pool.isShutDown = false → ∀ stuck, ∃ started retired, s.Reaches
    { s with
      pool := (s.pool.shutdown stuck).2
      phase := .answered (s.pool.shutdown stuck).1
      started := started
      retired := retired }

/-- The guarantees hold in every state that is reached, whatever the threads do in between. -/
theorem guarantees_of_reaches
    (h : (ofSize workers capacity).Reaches s) :
    s.Guarantees workers capacity := by
  have haccounts := (accounts_ofSize workers capacity).reaches h
  exact {
    accounts := haccounts
    balanced := balanced_settled haccounts
    refusing := fun hphase u task t hrun =>
      step_call_iff (isShutDown_reaches (haccounts.begun.mpr hphase) hrun) task
    traceless := fun move t => settled_step
    reasons := fun move t task e => refused_step haccounts
    counted := fun move t => pending_pos haccounts
    drained := drained_of_answered haccounts
    late := fun e => late_of_answered h
    submitted := reaches_submit haccounts
    shut := fun hfree hopen => reaches_shutdown haccounts hopen hfree }

/-- The guarantees hold in the course of any session, and pushing a snapshot is submitting it:
each snapshot that counts as delivered is an accepted task. -/
theorem tasks_accounted_for
    {workers capacity : Nat} {s : PoolSession τ}
    (h : (ofSize workers capacity).Reaches s) :
    s.Guarantees workers capacity ∧
      ∀ (c : Collaborators) (reentry : Reentry) (snapshot : Snapshot) (a : AgentState)
        (u : PoolSession Snapshot), c.push = .queued → (ofSize workers capacity).Reaches u →
        u.sending = none → u.pool = a.pool →
          ∃ t, u.Reaches t ∧ t.pool = (a.pushSnapshot c reentry snapshot).2.pool ∧
            t.accepted = u.accepted ++
              if (a.pushSnapshot c reentry snapshot).1 = .delivered then [snapshot] else [] := by
  refine ⟨guarantees_of_reaches h, fun c reentry snapshot a u hpush hu hfree hpool => ?_⟩
  have haccounts := (accounts_ofSize workers capacity).reaches hu
  exact reaches_push haccounts hfree hpool hpush reentry snapshot

/-- One worker and room for one task.  The submissions of 3 and 4 pass the flag before the
shutdown raises it: 3 finds the queue full, and 4 is accepted while the shutdown waits. -/
theorem tasks_accounted_for_overtaken :
    ∃ s : PoolSession Nat, (ofSize 1 1).Reaches s ∧ s.phase = .answered (.ok ()) ∧
      s.answers = [(1, .ok ()), (2, .ok ()), (3, .error (.queueFull 1)), (5, .error .shutDown),
        (4, .ok ())] ∧
      s.started = [1, 2, 4] ∧ s.pool.finished.Perm s.accepted ∧ s.pool.pending = 0 := by
  have hfirst : (ofSize 1 1).Reaches _ :=
    ((((Step.reaches (.entered 1 rfl)).step (.counted (i := 0) rfl rfl rfl)).step
      (.sent rfl (by decide))).step (.took rfl)).step (.entered 2 rfl)
  have hsecond := ((((hfirst.step (.counted (i := 0) rfl rfl rfl)).step
    (.sent rfl (by decide))).step (.entered 3 rfl)).step (.entered 4 rfl)).step (.begun rfl)
  have hthird := (((hsecond.step (.counted (i := 0) rfl rfl rfl)).step
    (.full rfl (by decide))).step (.refused 5 rfl)).step (.finished (i := 0) rfl)
  have hfourth := (((hthird.step (.took rfl)).step (.counted (i := 0) rfl rfl rfl)).step
    (.sent rfl (by decide))).step (.finished (i := 0) rfl)
  have hlast := (((((hfourth.step (.took rfl)).step (.finished (i := 0) rfl)).step
    (.woken rfl (.inr rfl))).step (.closed rfl rfl)).step (.retired rfl rfl (by decide)))
  have hanswered := hlast.step (.answered rfl fun _ => rfl)
  have hdrained := (tasks_accounted_for hanswered).1.drained
  exact ⟨_, hanswered, rfl, rfl, rfl, hdrained rfl⟩

end Steps
end PoolSession
end LiveProbe
