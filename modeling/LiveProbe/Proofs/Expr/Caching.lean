import LiveProbe.Agent.State

/-!
# Evaluation with kept trees

What the table of parsed texts may change: the time, and nothing else.

**Input.**  Any texts, whether they parse or not, each with bindings and a heap of its own:
between two evaluations the observed program may have changed every value.

**Invariant.**  Each outcome in the table is that of parsing its text
(`ExprCache.IsSound`).  It holds of the empty table and of what a full one is replaced by,
so it is kept when the table is emptied in the middle of an evaluation.

**Results.**
* `compiled_fst`, `getElem?_compiled`: a text is answered with the outcome of parsing it,
  which stands in the table afterwards.
* `evaluateExpression_eq`: an agent may evaluate with a new table each time.
* `evaluates_afresh`: the same for the values, after any number of evaluations, in a table
  that keeps its bound.
-/

namespace LiveProbe

/-- A text to be evaluated, with the bindings and the values at that time. -/
structure Query where
  source : String
  bindings : Bindings
  heap : Heap

/-- The value of a text that is parsed anew. -/
def Query.afresh (q : Query) : Except EvalError (Ref × Heap) :=
  match Parser.parse q.source with
  | .ok tree => (Eval.evaluate q.bindings tree).run q.heap
  | .error e => .error e

namespace ExprCache

/-- The answer to a query, with the table after it. -/
def ask (cache : ExprCache) (q : Query) : Except EvalError (Ref × Heap) × ExprCache :=
  cache.evaluate q.source q.bindings q.heap

/-- The table after queries. -/
def after : List Query → ExprCache → ExprCache
  | [], cache => cache
  | q :: rest, cache => after rest (cache.ask q).2

/-- Every outcome is that of parsing its text. -/
def IsSound (cache : ExprCache) : Prop :=
  ∀ (source : String) (outcome : Except EvalError Expr),
    cache[source]? = some outcome → outcome = Parser.parse source

variable {cache : ExprCache}

/-! ### The table -/

theorem isSound_empty : IsSound ∅ := by
  intro source outcome hfound
  rw [Std.HashMap.getElem?_empty] at hfound
  cases hfound

theorem IsSound.entered
    (h : cache.IsSound)
    (source : String) :
    (cache.entered source (Parser.parse source)).IsSound := by
  intro other outcome hfound
  rw [ExprCache.entered, Std.HashMap.getElem?_insert] at hfound
  split at hfound
  · next hsame =>
      obtain rfl := beq_iff_eq.mp hsame
      exact (Option.some.inj hfound).symm
  · -- What else is in the table was there before, or the table was emptied.
    split at hfound
    · exact h other outcome hfound
    · exact isSound_empty other outcome hfound

theorem compiled_fst
    (h : cache.IsSound)
    (source : String) :
    (cache.compiled source).1 = Parser.parse source := by
  unfold compiled
  split
  · next outcome hfound => exact h source outcome hfound
  · rfl

theorem getElem?_compiled
    (h : cache.IsSound)
    (source : String) :
    (cache.compiled source).2[source]? = some (Parser.parse source) := by
  unfold compiled
  split
  · next outcome hfound => rw [hfound, h source outcome hfound]
  · exact Std.HashMap.getElem?_insert_self

theorem IsSound.compiled
    (h : cache.IsSound)
    (source : String) :
    (cache.compiled source).2.IsSound := by
  unfold ExprCache.compiled
  split
  · exact h
  · exact h.entered source

/-- A full cache is emptied before it is filled again. -/
theorem size_compiled_le
    (h : cache.size ≤ Limits.expressionCache)
    (source : String) :
    (cache.compiled source).2.size ≤ Limits.expressionCache := by
  unfold compiled
  split
  · exact h
  · exact size_entered_le cache source (Parser.parse source)

/-! ### Queries -/

/-- A query changes the cache by its source alone. -/
theorem ask_snd
    (cache : ExprCache) (q : Query) :
    (cache.ask q).2 = (cache.compiled q.source).2 := by
  unfold ask evaluate
  rcases cache.compiled q.source with ⟨_ | _, _⟩ <;> rfl

/-- A query is answered as if there were no cache. -/
theorem ask_fst
    (h : cache.IsSound)
    (q : Query) :
    (cache.ask q).1 = q.afresh := by
  have hparsed := compiled_fst h q.source
  unfold ask evaluate Query.afresh
  rcases hcompiled : cache.compiled q.source with ⟨_ | _, _⟩ <;>
    rw [hcompiled] at hparsed <;> rw [← hparsed]

theorem isSound_after
    (queries : List Query)
    (h : cache.IsSound) :
    (after queries cache).IsSound := by
  induction queries generalizing cache with
  | nil => exact h
  | cons q rest ih =>
      refine ih ?_
      rw [ask_snd]
      exact h.compiled q.source

/-- A cache stays within its bound, after any queries. -/
theorem size_after_le
    (queries : List Query)
    (h : cache.size ≤ Limits.expressionCache) :
    (after queries cache).size ≤ Limits.expressionCache := by
  induction queries generalizing cache with
  | nil => exact h
  | cons q rest ih =>
      refine ih ?_
      rw [ask_snd]
      exact size_compiled_le h q.source

/-- The agent evaluates with a new table each time.  One that is kept gives the same. -/
theorem evaluateExpression_eq
    (h : cache.IsSound)
    (q : Query) :
    evaluateExpression q.source q.bindings q.heap =
      match (cache.ask q).1 with
      | .ok (r, heap) => .value r heap
      | .error e => .fault e := by
  rw [ask_fst h, ← ask_fst isSound_empty]
  rfl

/-! ### Main result -/

/-- After any queries, the next one is answered as if its text were parsed anew, the table
keeps its bound, and the outcome of parsing the text is in it. -/
theorem evaluates_afresh
    (queries : List Query) (q : Query) :
    let cache := after queries ∅
    let next := (cache.ask q).2
    (cache.ask q).1 = q.afresh ∧
      cache.size ≤ Limits.expressionCache ∧
      next.size ≤ Limits.expressionCache ∧
      next[q.source]? = some (Parser.parse q.source) := by
  intro cache next
  have hsound : cache.IsSound := isSound_after queries isSound_empty
  have hsize : cache.size ≤ Limits.expressionCache :=
    size_after_le queries (by rw [Std.HashMap.size_empty]; exact Nat.zero_le _)
  have hnext : next = (cache.compiled q.source).2 := ask_snd cache q
  refine ⟨ask_fst hsound q, hsize, ?_, ?_⟩
  · rw [hnext]
    exact size_compiled_le hsize q.source
  · rw [hnext]
    exact getElem?_compiled hsound q.source

end ExprCache
end LiveProbe
