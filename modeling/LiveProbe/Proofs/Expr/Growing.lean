import LiveProbe.Expr.Eval
import LiveProbe.Proofs.Value.Alike

/-!
# Evaluation reads only

Whatever an expression does, the values that there were stay as they are.

**Specification.**  A computation grows (`Eval.Grows`) if it leaves every cell of the heap
that it starts from unchanged; the cells of its results come behind them.

**Results.**
* `Eval.run_bind_ok`, `Eval.run_bind_error`: a computation goes on from the end of its first
  part.
* `Eval.grows_evaluate`: evaluation of a tree grows, by induction on the tree.
* `Heap.Extends.read_eq_of_ne_none`: what is read of a heap is read of all later ones.
-/

namespace LiveProbe

/-- A cell that is read as something exists. -/
theorem Heap.Extends.read_eq_of_ne_none
    {h h' : Heap} {r : Ref} {v : Value}
    (hgrown : h.Extends h')
    (hread : h.read r = v)
    (hv : v ≠ .none) :
    h'.read r = v := by
  have hlive : r < h.size := by
    by_contra hdead
    refine hv (hread.symm.trans ?_)
    rw [Heap.read, Array.getD_eq_getD_getElem?, Array.getElem?_eq_none (Nat.le_of_not_lt hdead),
      Option.getD_none]
  rw [hgrown.read_eq r hlive, hread]

/-- What is known of a value stays known when the heap grows. -/
theorem Heap.Extends.map_read_eq_some
    {α : Type} {f : Value → Option α} {h h' : Heap} {r : Ref} {a : α}
    (hgrown : h.Extends h')
    (hnone : f .none = none)
    (hr : f (h.read r) = some a) :
    f (h'.read r) = some a := by
  have hsome : h.read r ≠ .none := by
    intro hread
    rw [hread, hnone] at hr
    cases hr
  rw [hgrown.read_eq_of_ne_none rfl hsome, hr]

namespace Eval

/-- The cells of the heap that a computation starts from stay unchanged. -/
def Grows {α : Type} (m : Evaluating α) : Prop :=
  ∀ ⦃h : Heap⦄ ⦃a : α⦄ ⦃h' : Heap⦄, m.run h = .ok (a, h') → h.Extends h'

section Rules

variable {α β : Type}

theorem run_bind_ok
    {m : Evaluating α} {k : α → Evaluating β} {h h' : Heap} {a : α}
    (hm : m.run h = .ok (a, h')) :
    (m >>= k).run h = (k a).run h' := by
  rw [StateT.run_bind, hm]
  rfl

theorem run_bind_error
    {m : Evaluating α} {k : α → Evaluating β} {h : Heap} {e : EvalError}
    (hm : m.run h = .error e) :
    (m >>= k).run h = .error e := by
  rw [StateT.run_bind, hm]
  rfl

theorem run_bind_congr
    {m m' : Evaluating α} {h h' : Heap}
    (hm : m.run h = m'.run h')
    (k : α → Evaluating β) :
    (m >>= k).run h = (m' >>= k).run h' := by
  rw [StateT.run_bind, StateT.run_bind, hm]

theorem Grows.pure
    (a : α) :
    Grows (Pure.pure a) := by
  intro h _ _ hrun
  cases hrun
  exact .refl h

theorem Grows.throw
    (e : EvalError) :
    Grows (MonadExcept.throw e : Evaluating α) :=
  nofun

theorem Grows.lift
    (m : Except EvalError α) :
    Grows (liftM m) := by
  intro h _ _ hrun
  cases m with
  | error e => cases hrun
  | ok a =>
      cases hrun
      exact .refl h

theorem Grows.bind
    {m : Evaluating α} {k : α → Evaluating β}
    (hm : Grows m)
    (hk : ∀ a, Grows (k a)) :
    Grows (m >>= k) := by
  intro h b h'' hrun
  rw [StateT.run_bind] at hrun
  cases hfirst : m.run h with
  | error e =>
      rw [hfirst] at hrun
      cases hrun
  | ok p =>
      obtain ⟨a, h'⟩ := p
      rw [hfirst] at hrun
      exact (hm hfirst).trans (hk a hrun)

theorem Grows.get_bind
    {k : Heap → Evaluating β}
    (hk : ∀ h, Grows (k h)) :
    Grows (get >>= k) :=
  fun h _ _ hrun => hk h hrun

theorem Grows.ite
    {m n : Evaluating α}
    (b : Bool)
    (hm : Grows m)
    (hn : Grows n) :
    Grows (if b then m else n) := by
  cases b with
  | true => exact hm
  | false => exact hn

end Rules

theorem grows_fresh
    (v : Value) :
    Grows (fresh v) := by
  intro h _ _ hrun
  cases hrun
  exact h.extends_alloc v

/-- A new value is read under its reference, and the others stay. -/
theorem exists_run_fresh
    (v : Value) (h : Heap) :
    ∃ r h', (fresh v).run h = .ok (r, h') ∧ h'.read r = v ∧ h.Extends h' :=
  ⟨_, _, rfl, h.read_alloc_self v, h.extends_alloc v⟩

theorem run_valueOf
    {h : Heap} {r : Ref} {v : Value}
    (hread : h.read r = v) :
    (valueOf r).run h = .ok (v, h) := by
  rw [← hread]
  rfl

theorem grows_valueOf
    (r : Ref) :
    Grows (valueOf r) := .get_bind fun h => .pure (h.read r)

theorem grows_integer
    (i : Option Int64) :
    Grows (integer i) := by
  cases i with
  | some i => exact grows_fresh (.int i)
  | none => exact .throw _

/-! ### Access and functions -/

theorem grows_fieldOf
    (target : Ref) (name : String) :
    Grows (fieldOf target name) := by
  refine (grows_valueOf target).bind fun v => ?_
  cases v with
  | object typeName fields text =>
      dsimp only
      split
      · exact .pure _
      · exact .throw _
  | exception typeName args =>
      dsimp only
      split
      · exact grows_fresh _
      · exact .throw _
  | _ => exact .throw _

theorem grows_indexInto
    (target key : Ref) :
    Grows (indexInto target key) := by
  refine (grows_valueOf target).bind fun v => (grows_valueOf key).bind fun k => ?_
  cases v with
  | list items | tuple items => exact .lift _
  | str s => exact (Grows.lift _).bind fun i => grows_fresh _
  | dict entries =>
      refine .get_bind fun h => (Grows.lift _).bind fun found => ?_
      cases found with
      | some value => exact .pure value
      | none => exact .throw _
  | _ => exact .throw _

theorem grows_invalid
    (function : String) (arg : Ref) :
    Grows (invalid function arg) :=
  .get_bind fun _ => .throw _

theorem grows_lengthOf
    (arg : Ref) :
    Grows (lengthOf arg) := by
  refine (grows_valueOf arg).bind fun v => ?_
  split
  · exact grows_fresh _
  · exact .throw _

theorem grows_toInteger
    (arg : Ref) :
    Grows (toInteger arg) := by
  refine (grows_valueOf arg).bind fun v => ?_
  cases v with
  | int | bool => exact grows_fresh _
  | float | str =>
      dsimp only
      split
      · exact grows_fresh _
      · exact grows_invalid "int" arg
  | _ => exact grows_invalid "int" arg

theorem grows_toFloating
    (arg : Ref) :
    Grows (toFloating arg) := by
  refine (grows_valueOf arg).bind fun v => ?_
  cases v with
  | int | bool | float => exact grows_fresh _
  | str =>
      dsimp only
      split
      · exact grows_fresh _
      · exact grows_invalid "float" arg
  | _ => exact grows_invalid "float" arg

theorem grows_call
    (function : String) (args : List Ref) :
    Grows (call function args) := by
  have hsingle := Grows.lift (single function args)
  rw [call.eq_def]
  split
  · exact hsingle.bind grows_lengthOf
  · exact hsingle.bind fun arg => .get_bind fun h => grows_fresh _
  · exact hsingle.bind fun arg => (grows_valueOf arg).bind fun v => grows_fresh _
  · exact hsingle.bind fun arg => (grows_valueOf arg).bind fun v => grows_fresh _
  · exact hsingle.bind grows_toInteger
  · exact hsingle.bind grows_toFloating
  · exact .throw _

/-! ### Operators -/

theorem grows_integers
    (op : BinaryOp) (a b : Int64) :
    Grows (integers op a b) := by
  cases op with
  | add | sub | mul => exact grows_integer _
  | div =>
      rw [integers]
      split
      · exact .throw _
      · exact grows_fresh _
  | mod =>
      rw [integers]
      split
      · exact .throw _
      · split
        · exact .throw _
        · exact grows_integer _

theorem grows_floats
    (op : BinaryOp) (x y : Float) :
    Grows (floats op x y) := by
  cases op with
  | add | sub | mul => exact grows_fresh _
  | div | mod => exact .ite _ (.throw _) (grows_fresh _)

theorem grows_arithmetic
    (op : BinaryOp) (v w : Value) :
    Grows (arithmetic op v w) := by
  rw [arithmetic.eq_def]
  split
  · exact grows_integers op _ _
  · exact grows_floats op _ _
  · exact .throw _

theorem grows_binary
    (op : BinaryOp) (left right : Ref) :
    Grows (binary op left right) := by
  refine (grows_valueOf left).bind fun v => (grows_valueOf right).bind fun w => ?_
  split
  · exact grows_fresh _
  · exact grows_fresh _
  · exact grows_fresh _
  · exact grows_arithmetic op v w

theorem grows_negate
    (operand : Ref) :
    Grows (negate operand) := by
  refine (grows_valueOf operand).bind fun v => ?_
  cases v with
  | int i => exact grows_integer _
  | float | bool => exact grows_fresh _
  | _ => exact .throw _

/-! ### Trees -/

mutual

theorem grows_evaluate
    (b : Bindings) :
    (e : Expr) → Grows (evaluate b e)
  | .none | .bool _ | .int _ | .float _ | .str _ => by
      rw [evaluate]
      exact grows_fresh _
  | .list items => by
      rw [evaluate]
      exact (grows_evaluateAll b items).bind fun _ => grows_fresh _
  | .name name => by
      rw [evaluate]
      cases b.get? name with
      | some r => exact .pure r
      | none => exact .throw _
  | .field target name => by
      rw [evaluate]
      exact (grows_evaluate b target).bind fun r => grows_fieldOf r name
  | .index target key => by
      rw [evaluate]
      exact (grows_evaluate b target).bind fun r => (grows_evaluate b key).bind (grows_indexInto r)
  | .call function args => by
      rw [evaluate]
      exact (grows_evaluateAll b args).bind (grows_call function)
  | .negate operand => by
      rw [evaluate]
      exact (grows_evaluate b operand).bind grows_negate
  | .not operand => by
      rw [evaluate]
      exact (grows_evaluate b operand).bind fun r => (grows_valueOf r).bind fun _ => grows_fresh _
  | .and left right => by
      rw [evaluate]
      exact (grows_evaluate b left).bind fun r => (grows_valueOf r).bind fun v =>
        .ite _ (grows_evaluate b right) (.pure r)
  | .or left right => by
      rw [evaluate]
      exact (grows_evaluate b left).bind fun r => (grows_valueOf r).bind fun v =>
        .ite _ (.pure r) (grows_evaluate b right)
  | .binary op left right => by
      rw [evaluate]
      exact (grows_evaluate b left).bind fun r => (grows_evaluate b right).bind (grows_binary op r)
  | .compare first links => by
      rw [evaluate]
      exact (grows_evaluate b first).bind fun r => grows_evaluateLinks b r links

theorem grows_evaluateAll
    (b : Bindings) :
    (es : List Expr) → Grows (evaluateAll b es)
  | [] => by
      rw [evaluateAll]
      exact .pure []
  | e :: es => by
      rw [evaluateAll]
      exact (grows_evaluate b e).bind fun _ => (grows_evaluateAll b es).bind fun _ => .pure _

theorem grows_evaluateLinks
    (b : Bindings) (left : Ref) :
    (links : List (CompareOp × Expr)) → Grows (evaluateLinks b left links)
  | [] => by
      rw [evaluateLinks]
      exact grows_fresh _
  | (op, e) :: links => by
      rw [evaluateLinks]
      exact (grows_evaluate b e).bind fun r => .get_bind fun h => (Grows.lift _).bind fun answer =>
        .ite answer (grows_evaluateLinks b r links) (grows_fresh _)

end

end Eval
end LiveProbe
