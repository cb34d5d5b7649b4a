/-!
# Time budgets

The time left to a capture, counted in the questions that are still answered
with "there is time". Once run out, a budget stays so.

**Results.**
* `spend_of_exceeded`: a budget that has run out stays as it is.
-/

namespace LiveProbe

/-- A budget without bound, or one that runs out after `left` further questions. -/
inductive Budget
  | unlimited
  | questions (left : Nat)
  deriving DecidableEq, Repr

namespace Budget

/-- No time is left. -/
def exceeded : Budget → Bool
  | .questions 0 => true
  | _ => false

/-- The budget after one question. -/
def spend : Budget → Budget
  | .questions (left + 1) => .questions left
  | b => b

/-- The budget for a limit in milliseconds. Work is taken to need no time, so a
limit of zero has run out from the start and any other lasts. -/
def ofMillis (limit : Nat) : Budget := if limit = 0 then .questions 0 else .unlimited

theorem spend_of_exceeded {b : Budget} (h : b.exceeded = true) : b.spend = b := by
  cases b with
  | unlimited => rfl
  | questions left =>
    cases left with
    | zero => rfl
    | succ => cases h

end Budget
end LiveProbe
