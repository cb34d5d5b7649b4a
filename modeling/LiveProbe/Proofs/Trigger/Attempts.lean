import Mathlib.Algebra.Group.Nat.Defs
import Mathlib.Data.List.Chain
import LiveProbe.Proofs.Context.Processing

/-!
# Attempts to fire

Any sequence of attempts to fire one action, with the limits on its firing.

**Attempts.**  An attempt is made at a time and has work to do; the work may change a
state of any kind, and tells whether it succeeded.  The times of attempts need not
ascend.

**Specification.**  A limit stands against an attempt by what fired before and by the
time alone (`FireLimits.StandsAgainst`).  The statistics are no part of it.

**Results.**
* `fire_eq_tryFire`: the actions of a context are fired in this manner.
* `refusal?_cases`: an attempt is refused for the first limit that stands against it.
* `respects_next`, `respects_ofAttempts`: what fires respects all limits, and is what the
  statistics tell.
* `attempts_respect_limits`: the same together with what a further attempt does.
-/

namespace LiveProbe

/-- An attempt to fire, with the work that is done if it is not refused. -/
structure FireAttempt (σ : Type) where
  ts : Nat
  work : σ → Bool × σ

/-- What comes of attempts: the outcome of each with its time, the statistics, and the
state on which the work is done. -/
structure FireHistory (σ : Type) where
  outcomes : List (Nat × Except ThrottleReason Bool)
  stats : FireStats
  state : σ

/-- The place of a reason in the order in which the limits are asked. -/
def ThrottleReason.rank : ThrottleReason → Nat
  | .fireCountExceeded => 0
  | .beforeWindow => 1
  | .afterWindow => 2
  | .tooSoon => 3

variable {σ : Type}

namespace FireLimits

/-- A limit stands against firing at a time, after firings at the times `hits`. -/
def StandsAgainst (l : FireLimits) (hits : List Nat) (ts : Nat) : ThrottleReason → Prop
  | .fireCountExceeded => l.fireCount ≠ Limits.unlimitedFireCount ∧ l.fireCount ≤ hits.length
  | .beforeWindow => l.windowStartNs ≠ 0 ∧ ts < l.windowStartNs
  | .afterWindow => l.windowEndNs ≠ 0 ∧ l.windowEndNs < ts
  | .tooSoon => 0 < l.firePeriodNs ∧ ∃ last, hits.getLast? = some last ∧ ts ≤ last + l.firePeriodNs

/-- Of the limits that stand against firing the one that is asked first. -/
def IsRefusal (l : FireLimits) (hits : List Nat) (ts : Nat) (reason : ThrottleReason) : Prop :=
  l.StandsAgainst hits ts reason ∧
    ∀ other, l.StandsAgainst hits ts other → reason.rank ≤ other.rank

/-- An attempt: the work is done unless a limit stands against it, and its success is
recorded. -/
def tryFire (l : FireLimits) (s : FireStats) (a : FireAttempt σ) (x : σ) :
    Except ThrottleReason Bool × FireStats × σ :=
  match l.refusal? s a.ts with
  | some reason => (.error reason, s, x)
  | none =>
      let (success, y) := a.work x
      (.ok success, if success then s.record a.ts else s, y)

/-- An attempt sees only its time, the outcome of its work and the statistics. -/
theorem tryFire_eq_attempt
    (l : FireLimits) (s : FireStats) (a : FireAttempt σ) (x : σ) :
    ((l.tryFire s a x).1, (l.tryFire s a x).2.1) = l.attempt s a.ts (a.work x).1 := by
  unfold tryFire attempt
  cases l.refusal? s a.ts with
  | none => rfl
  | some reason => rfl

end FireLimits

/-- The actions of a context are fired by attempts at its time, whose work is to process
them; the statistics are kept in the ledger. -/
theorem Firing.fire_eq_tryFire
    (c : Collaborators) (a : Action) (f : Firing) :
    let tried := a.limits.tryFire (f.agent.ledger.read a.key)
      ⟨f.context.ts, fun f => f.contain (Acting.processAction c a)⟩ f
    let g := tried.2.2
    f.fire c a =
      if tried.1 = .ok true then
        (true, { g with agent := { g.agent with ledger := g.agent.ledger.write a.key tried.2.1 } })
      else (false, g) := by
  obtain ⟨hkeeps, hledger, _⟩ := contain_processAction c a f
  unfold fire FireLimits.tryFire refusal?
  cases hasked : a.limits.refusal? (f.agent.ledger.read a.key) f.context.ts with
  | some reason =>
      simp
  | none =>
      rcases hrun : f.contain (Acting.processAction c a) with ⟨_ | _, g⟩
      · simp [hrun]
      · have hstats : g.agent.ledger = f.agent.ledger := by
          rw [hrun] at hledger
          exact hledger
        have hts : g.context.ts = f.context.ts := by
          rw [hrun] at hkeeps
          exact hkeeps.ts
        simp [hrun, record, FireLedger.record, hstats, hts]

/-! ### Refusal -/

namespace FireLimits

variable {l : FireLimits} {hits : List Nat} {ts : Nat}

/-- The statistics after firings. -/
def statsOf (hits : List Nat) : FireStats := ⟨hits.length, hits.getLast?⟩

/-- The period refuses exactly what follows the last hit within it. -/
theorem isTooSoon_iff :
    l.isTooSoon (statsOf hits).lastFireNs ts = true ↔ l.StandsAgainst hits ts .tooSoon := by
  unfold isTooSoon StandsAgainst statsOf
  cases hits.getLast? with
  | none => simp
  | some last =>
      simp only [Bool.and_eq_true, decide_eq_true_eq, Option.some.injEq, exists_eq_left']
      omega

/-- An attempt is refused for the first limit that stands against it, and allowed if none
does. -/
theorem refusal?_cases
    (l : FireLimits) (hits : List Nat) (ts : Nat) :
    (∃ reason, l.refusal? (statsOf hits) ts = some reason ∧ l.IsRefusal hits ts reason) ∨
      (l.refusal? (statsOf hits) ts = none ∧ ∀ reason, ¬l.StandsAgainst hits ts reason) := by
  unfold refusal?
  by_cases hcount : l.StandsAgainst hits ts .fireCountExceeded
  · rw [if_pos (by exact hcount)]
    exact .inl ⟨_, rfl, hcount, fun other _ => Nat.zero_le _⟩
  rw [if_neg (by exact hcount)]
  by_cases hbefore : l.StandsAgainst hits ts .beforeWindow
  · rw [if_pos (by exact hbefore)]
    refine .inl ⟨_, rfl, hbefore, fun other hother => ?_⟩
    cases other with
    | fireCountExceeded => exact absurd hother hcount
    | beforeWindow | afterWindow | tooSoon => decide
  rw [if_neg (by exact hbefore)]
  by_cases hafter : l.StandsAgainst hits ts .afterWindow
  · rw [if_pos (by exact hafter)]
    refine .inl ⟨_, rfl, hafter, fun other hother => ?_⟩
    cases other with
    | fireCountExceeded => exact absurd hother hcount
    | beforeWindow => exact absurd hother hbefore
    | afterWindow | tooSoon => decide
  rw [if_neg (by exact hafter)]
  by_cases hsoon : l.StandsAgainst hits ts .tooSoon
  · rw [if_pos (isTooSoon_iff.2 hsoon)]
    refine .inl ⟨_, rfl, hsoon, fun other hother => ?_⟩
    cases other with
    | fireCountExceeded => exact absurd hother hcount
    | beforeWindow => exact absurd hother hbefore
    | afterWindow => exact absurd hother hafter
    | tooSoon => decide
  rw [if_neg (isTooSoon_iff.not.2 hsoon)]
  refine .inr ⟨rfl, fun reason => ?_⟩
  cases reason with
  | fireCountExceeded => exact hcount
  | beforeWindow => exact hbefore
  | afterWindow => exact hafter
  | tooSoon => exact hsoon

end FireLimits

/-! ### Attempts in sequence -/

namespace FireHistory

/-- Before any attempt. -/
def initial (x : σ) : FireHistory σ := ⟨[], .zero, x⟩

/-- The times at which the action fired. -/
def hits (t : FireHistory σ) : List Nat :=
  t.outcomes.filterMap fun tried => if tried.2 = .ok true then some tried.1 else none

/-- One more attempt. -/
def next (l : FireLimits) (t : FireHistory σ) (a : FireAttempt σ) : FireHistory σ :=
  let (outcome, stats, y) := l.tryFire t.stats a t.state
  ⟨t.outcomes ++ [(a.ts, outcome)], stats, y⟩

/-- Attempts one after another. -/
def ofAttempts (l : FireLimits) (attempts : List (FireAttempt σ)) (x : σ) : FireHistory σ :=
  attempts.foldl (next l) (initial x)

/-- What fired respects the limits, and the statistics tell of it. -/
structure Respects (l : FireLimits) (t : FireHistory σ) : Prop where
  stats : t.stats = ⟨t.hits.length, t.hits.getLast?⟩
  count : l.fireCount ≠ Limits.unlimitedFireCount → (t.hits.length : Int) ≤ max l.fireCount 0
  window : ∀ ts ∈ t.hits, (l.windowStartNs ≠ 0 → l.windowStartNs ≤ ts) ∧
    (l.windowEndNs ≠ 0 → ts ≤ l.windowEndNs)
  spaced : 0 < l.firePeriodNs → t.hits.IsChain fun last ts => last + l.firePeriodNs < ts

section Respects

variable {l : FireLimits} {t : FireHistory σ}

/-- What one more attempt does. -/
theorem Respects.next_cases
    (ht : t.Respects l)
    (a : FireAttempt σ) :
    (∃ reason, l.IsRefusal t.hits a.ts reason ∧
        t.next l a = { t with outcomes := t.outcomes ++ [(a.ts, .error reason)] }) ∨
      (∀ reason, ¬l.StandsAgainst t.hits a.ts reason) ∧
        t.next l a =
          ⟨t.outcomes ++ [(a.ts, .ok (a.work t.state).1)],
            if (a.work t.state).1 then ⟨t.stats.count + 1, some a.ts⟩ else t.stats,
            (a.work t.state).2⟩ := by
  have hstats : t.stats = FireLimits.statsOf t.hits := ht.stats
  rcases FireLimits.refusal?_cases l t.hits a.ts with ⟨reason, hasked, hfirst⟩ | ⟨hasked, hnone⟩
  · rw [← hstats] at hasked
    refine .inl ⟨reason, hfirst, ?_⟩
    simp only [next, FireLimits.tryFire, hasked]
  · rw [← hstats] at hasked
    refine .inr ⟨hnone, ?_⟩
    simp only [next, FireLimits.tryFire, hasked]
    rfl

theorem respects_initial
    (l : FireLimits) (x : σ) :
    (initial x).Respects l where
  stats := rfl
  count := fun _ => Int.le_max_right _ _
  window := fun _ hts => absurd hts List.not_mem_nil
  spaced := fun _ => List.IsChain.nil

/-- Without a firing everything stays as it was. -/
theorem Respects.miss
    {u : FireHistory σ}
    (ht : t.Respects l)
    (hhits : u.hits = t.hits)
    (hstats : u.stats = t.stats) :
    u.Respects l := by
  refine ⟨?_, ?_, ?_, ?_⟩
  · rw [hstats, hhits, ht.stats]
  · rw [hhits]
    exact ht.count
  · rw [hhits]
    exact ht.window
  · rw [hhits]
    exact ht.spaced

/-- A firing at a time at which no limit stands against it. -/
theorem Respects.hit
    {u : FireHistory σ} {ts : Nat}
    (ht : t.Respects l)
    (hallowed : ∀ reason, ¬l.StandsAgainst t.hits ts reason)
    (hhits : u.hits = t.hits ++ [ts])
    (hstats : u.stats = ⟨t.stats.count + 1, some ts⟩) :
    u.Respects l := by
  refine ⟨?_, fun hlimit => ?_, fun time htime => ?_, fun hperiod => ?_⟩
  · rw [hstats, ht.stats, hhits]
    simp
  · have hcount := hallowed .fireCountExceeded
    simp only [FireLimits.StandsAgainst, not_and, not_le] at hcount
    have hroom := hcount hlimit
    rw [hhits, List.length_append, List.length_singleton]
    omega
  · rw [hhits, List.mem_append, List.mem_singleton] at htime
    rcases htime with hold | rfl
    · exact ht.window time hold
    · have hbefore := hallowed .beforeWindow
      have hafter := hallowed .afterWindow
      simp only [FireLimits.StandsAgainst, not_and, not_lt] at hbefore hafter
      exact ⟨hbefore, hafter⟩
  · have hsoon := hallowed .tooSoon
    simp only [FireLimits.StandsAgainst, not_and, not_exists, not_le] at hsoon
    rw [hhits]
    refine List.isChain_append.2 ⟨ht.spaced hperiod, List.IsChain.singleton _, ?_⟩
    intro last hlast time htime
    obtain rfl : ts = time := by simpa using htime
    exact hsoon hperiod last hlast

/-- A further attempt keeps a history within the limits, whatever it is refused for. -/
theorem respects_next
    (ht : t.Respects l)
    (a : FireAttempt σ) :
    (t.next l a).Respects l := by
  rcases ht.next_cases a with ⟨reason, _, hnext⟩ | ⟨hnone, hnext⟩
  · refine ht.miss ?_ ?_ <;> rw [hnext]
    simp [hits]
  · cases hwork : (a.work t.state).1 with
    | true =>
        rw [hwork] at hnext
        refine ht.hit hnone ?_ ?_ <;> rw [hnext]
        · simp [hits]
        · rfl
    | false =>
        rw [hwork] at hnext
        refine ht.miss ?_ ?_ <;> rw [hnext]
        · simp [hits]
        · rfl

theorem respects_ofAttempts
    (l : FireLimits) (attempts : List (FireAttempt σ)) (x : σ) :
    (ofAttempts l attempts x).Respects l ∧
      (ofAttempts l attempts x).outcomes.map Prod.fst = attempts.map FireAttempt.ts := by
  induction attempts using List.reverseRecOn with
  | nil =>
      exact ⟨respects_initial l x, rfl⟩
  | append_singleton attempts a ih =>
      obtain ⟨hrespects, htimes⟩ := ih
      have hlast : ofAttempts l (attempts ++ [a]) x = (ofAttempts l attempts x).next l a := by
        simp [ofAttempts]
      rw [hlast]
      refine ⟨respects_next hrespects a, ?_⟩
      simp [next, FireLimits.tryFire, htimes]

end Respects

theorem length_hits_le
    (t : FireHistory σ) :
    t.hits.length ≤ t.outcomes.length :=
  List.length_filterMap_le _ _

/-- Below `2 ^ 63` a count reads the same as a signed word of 64 bits. -/
theorem toInt_toInt64_ofNat
    {count : Nat}
    (h : count < 2 ^ 63) :
    (UInt64.ofNat count).toInt64.toInt = count := by
  rw [UInt64.toInt64_ofNat', Int64.toInt_ofNat_of_lt h]

/-- For any times, also backwards, and any works: the hits stay within the count, the window and
the period, an attempt that is refused runs no work and changes nothing, and its reason is the
first that stands against it. -/
theorem attempts_respect_limits
    (l : FireLimits) (attempts : List (FireAttempt σ)) (x : σ)
    (hfew : attempts.length < 2 ^ 63) :
    let t := ofAttempts l attempts x
    t.Respects l ∧
      t.outcomes.map Prod.fst = attempts.map FireAttempt.ts ∧
      (UInt64.ofNat t.stats.count).toInt64.toInt = t.stats.count ∧
      ∀ a : FireAttempt σ,
        (∃ reason, l.IsRefusal t.hits a.ts reason ∧
          t.next l a = { t with outcomes := t.outcomes ++ [(a.ts, .error reason)] }) ∨
        (∀ reason, ¬l.StandsAgainst t.hits a.ts reason) ∧
          t.next l a =
            ⟨t.outcomes ++ [(a.ts, .ok (a.work t.state).1)],
              if (a.work t.state).1 then ⟨t.stats.count + 1, some a.ts⟩ else t.stats,
              (a.work t.state).2⟩ := by
  intro t
  obtain ⟨hrespects, htimes⟩ := respects_ofAttempts l attempts x
  refine ⟨hrespects, htimes, toInt_toInt64_ofNat ?_, hrespects.next_cases⟩
  have hlength := congrArg List.length htimes
  rw [List.length_map, List.length_map] at hlength
  have hcount := congrArg FireStats.count hrespects.stats
  have hle := length_hits_le t
  dsimp only [t] at hcount hle ⊢
  omega

/-- At most two firings, more than ten apart, between the times 5 and 100. -/
def twoSpaced : FireLimits := ⟨2, 10, 5, 100⟩

/-- Attempts at times that go backwards, of which the one at 40 does not succeed; they
count how often their work is done. -/
def backwards : List (FireAttempt Nat) :=
  [3, 20, 25, 40, 15, 31, 99].map fun ts => ⟨ts, fun runs => (ts ≠ 40, runs + 1)⟩

/-- Attempts at times that go backwards, refused for several reasons. -/
theorem attempts_respect_limits_backwards :
    backwards.length < 2 ^ 63 ∧
      (ofAttempts twoSpaced backwards 0).outcomes =
        [(3, .error .beforeWindow), (20, .ok true), (25, .error .tooSoon), (40, .ok false),
          (15, .error .tooSoon), (31, .ok true), (99, .error .fireCountExceeded)] ∧
      (ofAttempts twoSpaced backwards 0).state = 3 ∧
      (ofAttempts twoSpaced backwards 0).Respects twoSpaced := by
  have hfew : backwards.length < 2 ^ 63 := by decide
  exact ⟨hfew, rfl, rfl, (attempts_respect_limits twoSpaced backwards 0 hfew).1⟩

end FireHistory
end LiveProbe
