import Std.Data.HashMap
import LiveProbe.Expr.Error
import LiveProbe.Limits
import LiveProbe.Value.Heap
import LiveProbe.Value.Number

/-!
# Equality of values

Structural comparison over a heap with sharing and cycles.

**Algorithm.** Values of one identity are equal. Two lists, two tuples or two
dictionaries are compared by their parts; the outcome for the pair is kept for
the rest of the comparison, so shared parts are compared once. A pair that is
met again while its own comparison is under way, and a pair inside too many
others, ends the comparison with a fault. Sets and objects are equal only to
themselves.
-/

namespace LiveProbe

/-- Outcomes for pairs of containers compared earlier. -/
abbrev Decided := Std.HashMap (Ref × Ref) Bool

/-- A comparison that may end with a fault and keeps outcomes. -/
abbrev Comparing := StateT Decided (Except EvalError)

namespace Comparing

/-- Two lists of one length agree place by place. -/
def pairwise (same : Ref → Ref → Comparing Bool) : List Ref → List Ref → Comparing Bool
  | x :: xs, y :: ys => do
    if ← same x y then pairwise same xs ys else return false
  | _, _ => return true

/-- Some entry has the given key and value. -/
def hasEntry (same : Ref → Ref → Comparing Bool) (key value : Ref) :
    List (Ref × Ref) → Comparing Bool
  | [] => return false
  | (k, v) :: entries => do
    if ← same key k then
      if ← same value v then return true else hasEntry same key value entries
    else hasEntry same key value entries

/-- Every entry of the first list has its like in the second. -/
def entrywise (same : Ref → Ref → Comparing Bool) :
    List (Ref × Ref) → List (Ref × Ref) → Comparing Bool
  | [], _ => return true
  | (key, value) :: entries, others => do
    if ← hasEntry same key value others then entrywise same entries others else return false

end Comparing

namespace Heap

/-- Equality of values that are not compared by their parts. -/
def sameScalar (v w : Value) : Bool :=
  match v, w with
  | .none, .none => true
  | .str a, .str b => a == b
  | .bytes a, .bytes b => a == b
  | v, w =>
    match v.number?, w.number? with
    | some a, some b => a.same b
    | _, _ => false

/-- The parts by which two containers are compared. -/
inductive Parts
  | items (left right : List Ref)
  | entries (left right : List (Ref × Ref))

/-- The parts of two containers of one kind. -/
def parts? : Value → Value → Option Parts
  | .list a, .list b | .tuple a, .tuple b => some (.items a b)
  | .dict a, .dict b => some (.entries a b)
  | _, _ => none

/-- Compares parts, given how two values are compared. Items are compared in
order, entries in any order. -/
def Parts.compare (same : Ref → Ref → Comparing Bool) : Parts → Comparing Bool
  | .items a b => if a.length = b.length then Comparing.pairwise same a b else return false
  | .entries a b => if a.length = b.length then Comparing.entrywise same a b else return false

/-- Compares two values inside the pairs `active`, with room for `room` further
ones. -/
def equalWithin (h : Heap) (room : Nat) (active : List (Ref × Ref)) (x y : Ref) :
    Comparing Bool :=
  if x = y then return true
  else
    match parts? (h.read x) (h.read y) with
    | none => return sameScalar (h.read x) (h.read y)
    | some parts => do
      match (← get)[(x, y)]? with
      | some known => return known
      | none =>
        match room with
        | 0 => throw .recursionLimit
        | room + 1 =>
          if (x, y) ∈ active then throw .recursionLimit
          else do
            let equal ← parts.compare (equalWithin h room ((x, y) :: active))
            modify (·.insert (x, y) equal)
            return equal

/-- Structural equality of two values. -/
def equal (h : Heap) (x y : Ref) : Except EvalError Bool :=
  (h.equalWithin Limits.valueNesting [] x y).run' ∅

end Heap
end LiveProbe
