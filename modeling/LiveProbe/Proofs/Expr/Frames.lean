import LiveProbe.Expr.Eval

/-!
# Frames of evaluation

How many calls of the evaluation are inside one another.

**Limited evaluation.**  `evaluateWithin` follows the evaluation call by call and counts
those that have not returned.  A call beyond the last frame has an outcome of its own.

**Results.**
* `evaluateWithin_eq`: with one frame more than the tree is high, whatever happens beyond
  the last frame does not happen.
-/

namespace LiveProbe
namespace Eval

mutual

/-- Evaluation with so many frames, and with `full` for what needs another one. -/
def evaluateWithin (full : Evaluating Ref) (b : Bindings) : Nat → Expr → Evaluating Ref
  | 0, _ => full
  | _ + 1, .none => fresh .none
  | _ + 1, .bool value => fresh (.bool value)
  | _ + 1, .int value => fresh (.int value)
  | _ + 1, .float value => fresh (.float value)
  | _ + 1, .str value => fresh (.str value)
  | n + 1, .list items => do
    let values ← evaluateAllWithin full b n items
    fresh (.list values)
  | _ + 1, .name name =>
      match b.get? name with
      | some r => return r
      | none => throw (.unknownName name)
  | n + 1, .field target name => do
    let target ← evaluateWithin full b n target
    fieldOf target name
  | n + 1, .index target key => do
    let target ← evaluateWithin full b n target
    let key ← evaluateWithin full b n key
    indexInto target key
  | n + 1, .call function args => do
    let args ← evaluateAllWithin full b n args
    call function args
  | n + 1, .negate operand => do
    let value ← evaluateWithin full b n operand
    negate value
  | n + 1, .not operand => do
    let value ← evaluateWithin full b n operand
    fresh (.bool !(← valueOf value).isTruthy)
  | n + 1, .and left right => do
    let value ← evaluateWithin full b n left
    if (← valueOf value).isTruthy then evaluateWithin full b n right else return value
  | n + 1, .or left right => do
    let value ← evaluateWithin full b n left
    if (← valueOf value).isTruthy then return value else evaluateWithin full b n right
  | n + 1, .binary op left right => do
    let left ← evaluateWithin full b n left
    let right ← evaluateWithin full b n right
    binary op left right
  | n + 1, .compare first links => do
    let left ← evaluateWithin full b n first
    evaluateLinksWithin full b n left links

/-- The values of trees, each with all of the frames. -/
def evaluateAllWithin (full : Evaluating Ref) (b : Bindings) (n : Nat) :
    List Expr → Evaluating (List Ref)
  | [] => return []
  | e :: es => do
    let value ← evaluateWithin full b n e
    let values ← evaluateAllWithin full b n es
    return value :: values

/-- A chain of comparisons, each operand with all of the frames. -/
def evaluateLinksWithin (full : Evaluating Ref) (b : Bindings) (n : Nat) (left : Ref) :
    List (CompareOp × Expr) → Evaluating Ref
  | [] => fresh (.bool true)
  | (op, e) :: links => do
    let right ← evaluateWithin full b n e
    if ← compare (← get) op left right then evaluateLinksWithin full b n right links
    else fresh (.bool false)

end

variable {full : Evaluating Ref} {b : Bindings}

mutual

/-- A tree fits into as many frames as it has levels, and is then evaluated as it is without a
bound. -/
theorem evaluateWithin_eq :
    ∀ (n : Nat) (e : Expr), e.height < n → evaluateWithin full b n e = evaluate b e
  | 0, _, h => (Nat.not_lt_zero _ h).elim
  | _ + 1, .none, _ => by simp only [evaluateWithin, evaluate]
  | _ + 1, .bool _, _ => by simp only [evaluateWithin, evaluate]
  | _ + 1, .int _, _ => by simp only [evaluateWithin, evaluate]
  | _ + 1, .float _, _ => by simp only [evaluateWithin, evaluate]
  | _ + 1, .str _, _ => by simp only [evaluateWithin, evaluate]
  | n + 1, .list items, h => by
      rw [Expr.height, Nat.succ_lt_succ_iff] at h
      simp only [evaluateWithin, evaluate, evaluateAllWithin_eq n items h]
  | _ + 1, .name name, _ => by
      cases hname : b.get? name <;> simp only [evaluateWithin, evaluate, hname]
  | n + 1, .field target _, h => by
      rw [Expr.height, Nat.succ_lt_succ_iff] at h
      simp only [evaluateWithin, evaluate, evaluateWithin_eq n target h]
  | n + 1, .index target key, h => by
      rw [Expr.height, Nat.succ_lt_succ_iff, Nat.max_lt] at h
      simp only [evaluateWithin, evaluate, evaluateWithin_eq n target h.1,
        evaluateWithin_eq n key h.2]
  | n + 1, .call _ args, h => by
      rw [Expr.height, Nat.succ_lt_succ_iff] at h
      simp only [evaluateWithin, evaluate, evaluateAllWithin_eq n args h]
  | n + 1, .negate operand, h => by
      rw [Expr.height, Nat.succ_lt_succ_iff] at h
      simp only [evaluateWithin, evaluate, evaluateWithin_eq n operand h]
  | n + 1, .not operand, h => by
      rw [Expr.height, Nat.succ_lt_succ_iff] at h
      simp only [evaluateWithin, evaluate, evaluateWithin_eq n operand h]
  | n + 1, .and left right, h => by
      rw [Expr.height, Nat.succ_lt_succ_iff, Nat.max_lt] at h
      simp only [evaluateWithin, evaluate, evaluateWithin_eq n left h.1,
        evaluateWithin_eq n right h.2]
  | n + 1, .or left right, h => by
      rw [Expr.height, Nat.succ_lt_succ_iff, Nat.max_lt] at h
      simp only [evaluateWithin, evaluate, evaluateWithin_eq n left h.1,
        evaluateWithin_eq n right h.2]
  | n + 1, .binary _ left right, h => by
      rw [Expr.height, Nat.succ_lt_succ_iff, Nat.max_lt] at h
      simp only [evaluateWithin, evaluate, evaluateWithin_eq n left h.1,
        evaluateWithin_eq n right h.2]
  | n + 1, .compare first links, h => by
      rw [Expr.height, Nat.succ_lt_succ_iff, Nat.max_lt] at h
      simp only [evaluateWithin, evaluate, evaluateWithin_eq n first h.1,
        evaluateLinksWithin_eq n _ links h.2]

theorem evaluateAllWithin_eq :
    ∀ (n : Nat) (es : List Expr), Expr.heightItems es < n →
      evaluateAllWithin full b n es = evaluateAll b es
  | _, [], _ => by simp only [evaluateAllWithin, evaluateAll]
  | n, e :: es, h => by
      rw [Expr.heightItems, Nat.max_lt] at h
      simp only [evaluateAllWithin, evaluateAll, evaluateWithin_eq n e h.1,
        evaluateAllWithin_eq n es h.2]

theorem evaluateLinksWithin_eq :
    ∀ (n : Nat) (left : Ref) (links : List (CompareOp × Expr)), Expr.heightLinks links < n →
      evaluateLinksWithin full b n left links = evaluateLinks b left links
  | _, _, [], _ => by simp only [evaluateLinksWithin, evaluateLinks]
  | n, _, (_, e) :: links, h => by
      rw [Expr.heightLinks, Nat.max_lt] at h
      simp only [evaluateLinksWithin, evaluateLinks, evaluateWithin_eq n e h.1,
        evaluateLinksWithin_eq n _ links h.2]

end

end Eval
end LiveProbe
