import LiveProbe.Expr.Eval
import LiveProbe.Expr.Parser

/-!
# Parsed expressions

A table of texts with their trees or faults, so that a text is parsed once. A
full table is emptied before the next text is entered.

**Results.**
* `size_entered_le`: the table never grows beyond its capacity.
-/

namespace LiveProbe

/-- Texts with the outcome of parsing them. -/
abbrev ExprCache := Std.HashMap String (Except EvalError Expr)

namespace ExprCache

/-- Enters an outcome; a full table is emptied first. -/
def entered (cache : ExprCache) (source : String) (outcome : Except EvalError Expr) : ExprCache :=
  (if cache.size < Limits.expressionCache then cache else ∅).insert source outcome

/-- The outcome of parsing a text, with the table that keeps it. -/
def compiled (cache : ExprCache) (source : String) : Except EvalError Expr × ExprCache :=
  match cache[source]? with
  | some outcome => (outcome, cache)
  | none => (Parser.parse source, cache.entered source (Parser.parse source))

theorem size_entered_le (cache : ExprCache) (source : String) (outcome : Except EvalError Expr) :
    (cache.entered source outcome).size ≤ Limits.expressionCache := by
  unfold entered
  have := Std.HashMap.size_insert_le
    (m := if cache.size < Limits.expressionCache then cache else ∅) (k := source) (v := outcome)
  split at this <;> split <;> simp_all [Limits.expressionCache] <;> omega

/-- The value of a text under bindings, with the table and the heap after it. -/
def evaluate (cache : ExprCache) (source : String) (b : Bindings) (h : Heap) :
    Except EvalError (Ref × Heap) × ExprCache :=
  match cache.compiled source with
  | (.ok tree, cache) => ((Eval.evaluate b tree).run h, cache)
  | (.error e, cache) => (.error e, cache)

end ExprCache
end LiveProbe
