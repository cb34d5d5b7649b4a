import LiveProbe.Agent.State
import LiveProbe.Proofs.Value.Comparing

/-!
# Evaluation does not look at identities

On alike heaps an expression comes to alike ends.

**Specification.**  Two evaluations go in step (`Eval.InStep`) if from alike heaps they
end with the same fault, or with related results in heaps that are alike in more pairs.
Both heaps only grow. An evaluator is uniform (`IsUniform`) if it goes in step with
itself.

**Results.**
* `Eval.inStep_evaluate`: evaluation of one tree goes in step, by induction on the tree.
* `evaluateExpression_isUniform`: the language of expressions is uniform.
-/

namespace LiveProbe

/-- A relation for each pairing of identities. -/
abbrev OnPairs (α β : Type) := (Ref → Ref → Prop) → α → β → Prop

namespace Eval

/-! ### Evaluations in step -/

/-- Heaps that have grown from alike ones and are alike in more pairs. -/
structure Grown (R : Ref → Ref → Prop) (h g : Heap) (S : Ref → Ref → Prop) (h' g' : Heap) :
    Prop where
  pairs : ∀ x y, R x y → S x y
  alike : Heap.Alike S h' g'
  left : h.Extends h'
  right : g.Extends g'

theorem Grown.refl
    {R : Ref → Ref → Prop} {h g : Heap}
    (ha : Heap.Alike R h g) :
    Grown R h g R h g :=
  ⟨fun _ _ hxy => hxy, ha, .refl h, .refl g⟩

/-- Growth of the two heaps in step can be continued. -/
theorem Grown.trans
    {R S T : Ref → Ref → Prop} {h g h' g' h'' g'' : Heap}
    (hg : Grown R h g S h' g')
    (hg' : Grown S h' g' T h'' g'') :
    Grown R h g T h'' g'' where
  pairs x y hxy := hg'.pairs x y (hg.pairs x y hxy)
  alike := hg'.alike
  left := hg.left.trans hg'.left
  right := hg.right.trans hg'.right

/-- Ends with related results. -/
def EndAlike {α β : Type} (R : Ref → Ref → Prop) (h g : Heap) (T : OnPairs α β)
    (p : α × Heap) (p' : β × Heap) : Prop :=
  ∃ S, Grown R h g S p.2 p'.2 ∧ T S p.1 p'.1

/-- From heaps alike in given pairs, two evaluations come to related ends. -/
def InStep {α β : Type} (R : Ref → Ref → Prop) (T : OnPairs α β) (m : Evaluating α)
    (m' : Evaluating β) : Prop :=
  ∀ h g, Heap.Alike R h g → Concur (EndAlike R h g T) (m.run h) (m'.run g)

/-- Evaluations in step whose results are paired. -/
abbrev InStepRef (R : Ref → Ref → Prop) (m m' : Evaluating Ref) : Prop :=
  InStep R (fun S => S) m m'

variable {R : Ref → Ref → Prop}

section Rules

variable {α β γ δ : Type} {T : OnPairs α β} {U : OnPairs γ δ}

theorem InStep.pure
    {a : α} {b : β}
    (h : T R a b) :
    InStep R T (Pure.pure a) (Pure.pure b) :=
  fun _ _ ha => .ok ⟨R, .refl ha, h⟩

theorem InStep.throw
    (e : EvalError) :
    InStep R T (MonadExcept.throw e) (MonadExcept.throw e) :=
  fun _ _ _ => .error e

theorem InStep.throw_of_eq
    {e e' : EvalError}
    (h : e = e') :
    InStep R T (MonadExcept.throw e) (MonadExcept.throw e') :=
  h ▸ .throw e

/-- What does not touch the heaps runs in step where its outcomes concur. -/
theorem InStep.lift
    {m : Except EvalError α} {m' : Except EvalError β}
    (h : Concur (T R) m m') :
    InStep R T (liftM m) (liftM m') :=
  fun _ _ ha => h.bind fun _ _ hab => .ok ⟨R, .refl ha, hab⟩

/-- Steps are taken one after the other, over the pairs that the first have left. -/
theorem InStep.bind
    {m : Evaluating α} {m' : Evaluating β} {k : α → Evaluating γ} {k' : β → Evaluating δ}
    (h : InStep R T m m')
    (hk : ∀ S, (∀ x y, R x y → S x y) → ∀ a b, T S a b → InStep S U (k a) (k' b)) :
    InStep R U (m >>= k) (m' >>= k') := by
  intro s s' ha
  rw [StateT.run_bind, StateT.run_bind]
  refine (h s s' ha).bind ?_
  rintro ⟨a, t⟩ ⟨b, t'⟩ ⟨S, hgrown, hab⟩
  refine (hk S hgrown.pairs a b hab t t' hgrown.alike).imp ?_
  rintro p p' ⟨S', hgrown', hpp⟩
  exact ⟨S', hgrown.trans hgrown', hpp⟩

/-- What both do may depend on their heaps. -/
theorem InStep.get_bind
    {k k' : Heap → Evaluating γ} {U : OnPairs γ γ}
    (hk : ∀ h g, Heap.Alike R h g → InStep R U (k h) (k' g)) :
    InStep R U (get >>= k) (get >>= k') :=
  fun h g ha => hk h g ha h g ha

theorem InStep.ite
    {m n : Evaluating α} {m' n' : Evaluating β}
    (b : Bool)
    (h : InStep R T m m')
    (h' : InStep R T n n') :
    InStep R T (if b then m else n) (if b then m' else n') := by
  cases b with
  | true => exact h
  | false => exact h'

end Rules

theorem inStep_fresh
    {v w : Value}
    (h : v.Alike R w) :
    InStepRef R (fresh v) (fresh w) :=
  fun s s' ha =>
    .ok ⟨Heap.Paired R s.size s'.size,
      ⟨fun _ _ => Or.inl, ha.alloc h, s.extends_alloc v, s'.extends_alloc w⟩,
      Or.inr ⟨rfl, rfl⟩⟩

/-- Paired references have values with paired parts. -/
theorem inStep_valueOf
    {x y : Ref}
    (h : R x y) :
    InStep R Value.Alike (valueOf x) (valueOf y) :=
  .get_bind fun _ _ ha => .pure (ha.read h)

/-- A type mismatch names types, which are common. -/
theorem mismatch_eq
    {v w v' w' : Value}
    (op : String)
    (hv : v.Alike R v')
    (hw : w.Alike R w') :
    mismatch op v w = mismatch op v' w' := by
  rw [mismatch, mismatch, hv.typeName_eq, hw.typeName_eq]

theorem inStep_integer
    (i : Option Int64) :
    InStepRef R (integer i) (integer i) := by
  cases i with
  | some i => exact inStep_fresh (.int i)
  | none => exact .throw _

/-! ### Access -/

/-- The first field of a name is paired with the first field of that name. -/
theorem find?_alike
    {fields fields' : List (String × Ref)}
    (h : List.Forall₂ (Value.FieldAlike R) fields fields') (name : String) :
    Option.Rel (Value.FieldAlike R) (fields.find? fun f => f.1 == name)
      (fields'.find? fun f => f.1 == name) := by
  induction h with
  | nil =>
      exact .none
  | cons hf _ ih =>
      rw [List.find?_cons, List.find?_cons, hf.1]
      split
      · exact .some hf
      · exact ih

theorem inStep_fieldOf
    {target target' : Ref}
    (h : R target target')
    (name : String) :
    InStepRef R (fieldOf target name) (fieldOf target' name) := by
  refine (inStep_valueOf h).bind fun S _ v w hvw => ?_
  cases hvw with
  | @object typeName fields fields' text hfields =>
      have hfind := find?_alike hfields name
      dsimp only
      generalize List.find? _ fields = found at hfind ⊢
      generalize List.find? _ fields' = found' at hfind ⊢
      cases hfind with
      | none => exact .throw _
      | some hf => exact .pure hf.2
  | exception typeName hargs =>
      dsimp only
      split
      · exact inStep_fresh (.tuple hargs)
      · exact .throw _
  | _ => exact .throw _

theorem place_eq
    {k k' : Value}
    (h : k.Alike R k')
    (length : Nat) :
    place k length = place k' length := by
  cases h <;> rfl

theorem lt_of_place
    {k : Value} {length i : Nat}
    (h : place k length = .ok i) :
    i < length := by
  have hresolved : ∀ {j : Int} {e : EvalError},
      (if 0 ≤ j ∧ j < length then Except.ok j.toNat else Except.error e) = Except.ok i →
        i < length := by
    intro j e hj
    split at hj
    · injection hj with hj
      omega
    · cases hj
  cases k with
  | int | bool => exact hresolved h
  | _ => cases h

theorem itemOf_alike
    {items items' : List Ref} {k k' : Value}
    (hitems : List.Forall₂ R items items')
    (hk : k.Alike R k') :
    Concur R (itemOf items k) (itemOf items' k') := by
  unfold itemOf
  rw [← hitems.length_eq, ← place_eq hk]
  cases hplace : place k items.length with
  | error e =>
      exact .error e
  | ok i =>
      have hi := lt_of_place hplace
      have hi' : i < items'.length := hitems.length_eq ▸ hi
      refine .ok ?_
      simp only [List.getD_eq_getElem?_getD, List.getElem?_eq_getElem, hi, hi', Option.getD_some]
      exact hitems.get hi hi'

/-- A lookup makes the same comparisons and finds paired values. -/
theorem lookup_alike
    {h g : Heap} {key key' : Ref} {entries entries' : List (Ref × Ref)}
    (ha : Heap.Alike R h g)
    (hkey : R key key')
    (hentries : List.Forall₂ (Value.EntryAlike R) entries entries') :
    Concur (Option.Rel R) (lookup h key entries) (lookup g key' entries') := by
  induction hentries with
  | nil =>
      exact .ok .none
  | cons he _ ih =>
      unfold lookup
      rw [ha.equal_eq he.1 hkey]
      cases g.equal _ key' with
      | error e =>
          exact .error e
      | ok answer =>
          cases answer with
          | true => exact .ok (.some he.2)
          | false => exact ih

theorem inStep_indexInto
    {target target' key key' : Ref}
    (htarget : R target target')
    (hkey : R key key') :
    InStepRef R (indexInto target key) (indexInto target' key') := by
  refine (inStep_valueOf htarget).bind fun S hS v w hvw => ?_
  refine (inStep_valueOf (hS _ _ hkey)).bind fun S' hS' k k' hk => ?_
  have hvw := hvw.mono hS'
  have hfault := mismatch_eq "[]" hvw hk
  cases hvw with
  | list hitems | tuple hitems =>
      exact .lift (itemOf_alike hitems hk)
  | str s =>
      refine (InStep.lift (T := fun _ => Eq) (Concur.of_eq (place_eq hk _))).bind ?_
      rintro T _ i _ rfl
      exact inStep_fresh (.str _)
  | dict hentries =>
      refine .get_bind fun h g ha => ?_
      have hkey := hS' _ _ (hS _ _ hkey)
      refine (InStep.lift (T := fun S => Option.Rel S) (lookup_alike ha hkey hentries)).bind ?_
      intro T _ found found' hfound
      cases hfound with
      | some hvalue => exact .pure hvalue
      | none => exact .throw_of_eq (by rw [ha.textOf_eq hkey])
  | none | bool | int | float | bytes | set | object | exception | iterator | callable | foreign =>
      exact .throw_of_eq hfault

/-! ### Functions -/

theorem single_alike
    {args args' : List Ref}
    (function : String) (h : List.Forall₂ R args args') :
    Concur R (single function args) (single function args') := by
  have hlength := h.length_eq
  cases h with
  | nil =>
      exact .error _
  | cons hx hrest =>
      cases hrest with
      | nil =>
          exact .ok hx
      | cons =>
          simp only [single, hlength]
          exact .error _

theorem inStep_invalid
    {arg arg' : Ref}
    (function : String)
    (h : R arg arg') :
    InStepRef R (invalid function arg) (invalid function arg') :=
  .get_bind fun _ _ ha => .throw_of_eq (by rw [ha.textOf_eq h])

theorem inStep_lengthOf
    {arg arg' : Ref}
    (h : R arg arg') :
    InStepRef R (lengthOf arg) (lengthOf arg') := by
  refine (inStep_valueOf h).bind fun S _ v w hvw => ?_
  rw [hvw.length?_eq]
  cases w.length? with
  | some n => exact inStep_fresh (.int _)
  | none => exact .throw_of_eq (by rw [hvw.typeName_eq])

theorem inStep_toInteger
    {arg arg' : Ref}
    (h : R arg arg') :
    InStepRef R (toInteger arg) (toInteger arg') := by
  refine (inStep_valueOf h).bind fun S hS v w hvw => ?_
  have hinvalid := inStep_invalid "int" (hS _ _ h)
  cases hvw with
  | int i =>
      exact inStep_fresh (.int i)
  | bool b =>
      exact inStep_fresh (.int _)
  | float x =>
      dsimp only
      split
      · exact inStep_fresh (.int _)
      · exact hinvalid
  | str s =>
      dsimp only
      split
      · exact inStep_fresh (.int _)
      · exact hinvalid
  | _ => exact hinvalid

theorem inStep_toFloating
    {arg arg' : Ref}
    (h : R arg arg') :
    InStepRef R (toFloating arg) (toFloating arg') := by
  refine (inStep_valueOf h).bind fun S hS v w hvw => ?_
  have hinvalid := inStep_invalid "float" (hS _ _ h)
  cases hvw with
  | int i =>
      exact inStep_fresh (.float _)
  | bool b =>
      exact inStep_fresh (.float _)
  | float x =>
      exact inStep_fresh (.float x)
  | str s =>
      dsimp only
      split
      · exact inStep_fresh (.float _)
      · exact hinvalid
  | _ => exact hinvalid

/-- A call of each built-in function runs in step. -/
theorem inStep_call
    {args args' : List Ref}
    (function : String) (hargs : List.Forall₂ R args args') :
    InStepRef R (call function args) (call function args') := by
  have harg := InStep.lift (T := fun S => S) (single_alike function hargs)
  unfold call
  split
  · exact harg.bind fun S _ x y hxy => inStep_lengthOf hxy
  · refine harg.bind fun S _ x y hxy => .get_bind fun _ _ ha => ?_
    rw [ha.display_eq hxy]
    exact inStep_fresh (.str _)
  · refine harg.bind fun S _ x y hxy => (inStep_valueOf hxy).bind fun S' _ v w hvw => ?_
    rw [hvw.isTruthy_eq]
    exact inStep_fresh (.bool _)
  · refine harg.bind fun S _ x y hxy => (inStep_valueOf hxy).bind fun S' _ v w hvw => ?_
    rw [hvw.typeName_eq]
    exact inStep_fresh (.str _)
  · exact harg.bind fun S _ x y hxy => inStep_toInteger hxy
  · exact harg.bind fun S _ x y hxy => inStep_toFloating hxy
  · exact .throw _

/-! ### Operators -/

theorem number?_eq
    {v w : Value}
    (h : v.Alike R w) :
    v.number? = w.number? := by
  cases h <;> rfl

theorem inStep_integers
    (op : BinaryOp) (a b : Int64) :
    InStepRef R (integers op a b) (integers op a b) := by
  cases op with
  | add | sub | mul =>
      exact inStep_integer _
  | div =>
      simp only [integers]
      split
      · exact .throw _
      · exact inStep_fresh (.float _)
  | mod =>
      simp only [integers]
      split
      · exact .throw _
      · split
        · exact .throw _
        · exact inStep_integer _

theorem inStep_floats
    (op : BinaryOp) (x y : Float) :
    InStepRef R (floats op x y) (floats op x y) := by
  cases op with
  | add | sub | mul =>
      exact inStep_fresh (.float _)
  | div | mod =>
      exact .ite _ (.throw _) (inStep_fresh (.float _))

/-- Arithmetic sees values only by their numbers, texts and types. -/
theorem inStep_arithmetic
    {v w v' w' : Value}
    (op : BinaryOp)
    (hv : v.Alike R v')
    (hw : w.Alike R w') :
    InStepRef R (arithmetic op v w) (arithmetic op v' w') := by
  unfold arithmetic
  rw [number?_eq hv, number?_eq hw]
  split
  · exact inStep_integers op _ _
  · exact inStep_floats op _ _
  · exact .throw_of_eq (mismatch_eq _ hv hw)

theorem inStep_binary
    {left right left' right' : Ref}
    (op : BinaryOp)
    (hleft : R left left')
    (hright : R right right') :
    InStepRef R (binary op left right) (binary op left' right') := by
  refine (inStep_valueOf hleft).bind fun S hS v v' hv => ?_
  refine (inStep_valueOf (hS _ _ hright)).bind fun S' hS' w w' hw => ?_
  have hv := hv.mono hS'
  have harithmetic := inStep_arithmetic op hv hw
  cases op with
  | add =>
      -- only sums of two strings, lists or tuples are not arithmetic
      cases hv with
      | str a =>
          cases hw with
          | str b => exact inStep_fresh (.str _)
          | _ => exact harithmetic
      | list ha =>
          cases hw with
          | list hb => exact inStep_fresh (.list (List.rel_append ha hb))
          | _ => exact harithmetic
      | tuple ha =>
          cases hw with
          | tuple hb => exact inStep_fresh (.tuple (List.rel_append ha hb))
          | _ => exact harithmetic
      | _ => exact harithmetic
  | _ => exact harithmetic

theorem inStep_negate
    {operand operand' : Ref}
    (h : R operand operand') :
    InStepRef R (negate operand) (negate operand') := by
  refine (inStep_valueOf h).bind fun S _ v w hvw => ?_
  have hname := hvw.typeName_eq
  cases hvw with
  | int i => exact inStep_integer _
  | float x => exact inStep_fresh (.float _)
  | bool b => exact inStep_fresh (.int _)
  | _ => exact .throw_of_eq (congrArg (EvalError.typeMismatch "unary -" · "") hname)

/-- Identity is asked the same way on both sides. -/
theorem sameValue_eq
    {h g : Heap} {left right left' right' : Ref}
    (ha : Heap.Alike R h g)
    (hleft : R left left')
    (hright : R right right') :
    sameValue h left right = sameValue g left' right' := by
  have hv := ha.read hleft
  have hw := ha.read hright
  have hidentity : (left == right) = (left' == right') := by
    rw [Bool.eq_iff_iff, beq_iff_eq, beq_iff_eq, ha.eq_iff hleft hright]
  unfold sameValue
  generalize h.read left = v at hv ⊢
  generalize h.read right = w at hw ⊢
  generalize g.read left' = v' at hv ⊢
  generalize g.read right' = w' at hw ⊢
  cases hv with
  | none | bool =>
      cases hw with
      | none | bool => first | rfl | exact hidentity
      | _ => exact hidentity
  | _ => exact hidentity

theorem order?_eq
    {v w v' w' : Value}
    (hv : v.Alike R v')
    (hw : w.Alike R w') :
    order? v w = order? v' w' := by
  have hnumber := number?_eq hv
  cases hv with
  | str =>
      cases hw <;> rfl
  | _ =>
      simp only [order?, hnumber, number?_eq hw]

/-- A scan for an equal item has the same outcome. -/
theorem anyEqual_eq
    {h g : Heap} {needle needle' : Ref} {items items' : List Ref}
    (ha : Heap.Alike R h g)
    (hneedle : R needle needle')
    (hitems : List.Forall₂ R items items') :
    anyEqual h needle items = anyEqual g needle' items' := by
  induction hitems with
  | nil =>
      rfl
  | cons hitem _ ih =>
      rw [anyEqual, anyEqual, ha.equal_eq hitem hneedle, ih]

theorem contains_eq
    {h g : Heap} {haystack needle haystack' needle' : Ref}
    (ha : Heap.Alike R h g)
    (hhaystack : R haystack haystack')
    (hneedle : R needle needle') :
    contains h haystack needle = contains g haystack' needle' := by
  have hv := ha.read hhaystack
  have hw := ha.read hneedle
  have hfault := mismatch_eq "in" hw hv
  have hany : ∀ items items', List.Forall₂ R items items' →
      anyEqual h needle items = anyEqual g needle' items' :=
    fun _ _ => anyEqual_eq ha hneedle
  unfold contains
  generalize h.read haystack = v at hv hfault ⊢
  generalize g.read haystack' = v' at hv hfault ⊢
  generalize h.read needle = w at hw hfault ⊢
  generalize g.read needle' = w' at hw hfault ⊢
  cases hv with
  | str s =>
      cases hw with
      | str => rfl
      | _ => exact congrArg Except.error hfault
  | list hitems | tuple hitems | set hitems =>
      exact hany _ _ hitems
  | dict hentries =>
      refine hany _ _ ?_
      rw [List.forall₂_map_left_iff, List.forall₂_map_right_iff]
      exact hentries.imp fun _ _ he => he.1
  | _ => exact congrArg Except.error hfault

theorem compare_eq
    {h g : Heap} {left right left' right' : Ref}
    (ha : Heap.Alike R h g) (op : CompareOp)
    (hleft : R left left')
    (hright : R right right') :
    compare h op left right = compare g op left' right' := by
  have hv := ha.read hleft
  have hw := ha.read hright
  cases op with
  | eq | ne =>
      simp only [compare, ha.equal_eq hleft hright]
  | same | notSame =>
      simp only [compare, sameValue_eq ha hleft hright]
  | mem | notMem =>
      simp only [compare, contains_eq ha hright hleft]
  | lt | le | gt | ge =>
      simp only [compare, order?_eq hv hw, mismatch_eq _ hv hw]

/-! ### Trees -/

/-- What is bound is paired with itself. -/
def Fixes (R : Ref → Ref → Prop) (b : Bindings) : Prop := ∀ p ∈ b.pairs, R p.2 p.2

theorem Fixes.mono
    {S : Ref → Ref → Prop} {b : Bindings}
    (hb : Fixes R b)
    (hRS : ∀ x y, R x y → S x y) :
    Fixes S b :=
  fun p hp => hRS _ _ (hb p hp)

theorem pair_of_get?
    {b : Bindings} {name : String} {r : Ref}
    (hb : Fixes R b)
    (h : b.get? name = some r) :
    R r r := by
  unfold Bindings.get? at h
  obtain ⟨p, hp, rfl⟩ := Option.map_eq_some_iff.1 h
  exact hb p (List.mem_reverse.1 (List.mem_of_find?_eq_some hp))

mutual

/-- Evaluation goes in step with itself where what is bound is paired with itself. -/
theorem inStep_evaluate
    {R : Ref → Ref → Prop} {b : Bindings}
    (hb : Fixes R b) :
    (e : Expr) → InStepRef R (evaluate b e) (evaluate b e)
  | .none => by
      rw [evaluate]
      exact inStep_fresh .none
  | .bool value => by
      rw [evaluate]
      exact inStep_fresh (.bool value)
  | .int value => by
      rw [evaluate]
      exact inStep_fresh (.int value)
  | .float value => by
      rw [evaluate]
      exact inStep_fresh (.float value)
  | .str value => by
      rw [evaluate]
      exact inStep_fresh (.str value)
  | .list items => by
      rw [evaluate]
      exact (inStep_evaluateAll hb items).bind fun _ _ _ _ hvalues => inStep_fresh (.list hvalues)
  | .name name => by
      rw [evaluate]
      cases hname : b.get? name with
      | some r => exact .pure (pair_of_get? hb hname)
      | none => exact .throw _
  | .field target name => by
      rw [evaluate]
      exact (inStep_evaluate hb target).bind fun _ _ _ _ ht => inStep_fieldOf ht name
  | .index target key => by
      rw [evaluate]
      refine (inStep_evaluate hb target).bind fun S hS _ _ ht => ?_
      refine (inStep_evaluate (hb.mono hS) key).bind fun S' hS' _ _ hk => ?_
      exact inStep_indexInto (hS' _ _ ht) hk
  | .call function args => by
      rw [evaluate]
      exact (inStep_evaluateAll hb args).bind fun _ _ _ _ hargs => inStep_call function hargs
  | .negate operand => by
      rw [evaluate]
      exact (inStep_evaluate hb operand).bind fun _ _ _ _ ho => inStep_negate ho
  | .not operand => by
      rw [evaluate]
      refine (inStep_evaluate hb operand).bind fun _ _ _ _ ho => ?_
      refine (inStep_valueOf ho).bind fun _ _ _ _ hv => ?_
      rw [hv.isTruthy_eq]
      exact inStep_fresh (.bool _)
  | .and left right => by
      rw [evaluate]
      refine (inStep_evaluate hb left).bind fun S hS _ _ hl => ?_
      refine (inStep_valueOf hl).bind fun S' hS' _ _ hv => ?_
      rw [hv.isTruthy_eq]
      exact .ite _ (inStep_evaluate ((hb.mono hS).mono hS') right) (.pure (hS' _ _ hl))
  | .or left right => by
      rw [evaluate]
      refine (inStep_evaluate hb left).bind fun S hS _ _ hl => ?_
      refine (inStep_valueOf hl).bind fun S' hS' _ _ hv => ?_
      rw [hv.isTruthy_eq]
      exact .ite _ (.pure (hS' _ _ hl)) (inStep_evaluate ((hb.mono hS).mono hS') right)
  | .binary op left right => by
      rw [evaluate]
      refine (inStep_evaluate hb left).bind fun S hS _ _ hl => ?_
      refine (inStep_evaluate (hb.mono hS) right).bind fun S' hS' _ _ hr => ?_
      exact inStep_binary op (hS' _ _ hl) hr
  | .compare first links => by
      rw [evaluate]
      exact (inStep_evaluate hb first).bind fun _ hS _ _ hl =>
        inStep_evaluateLinks (hb.mono hS) hl links

theorem inStep_evaluateAll
    {R : Ref → Ref → Prop} {b : Bindings}
    (hb : Fixes R b) :
    (es : List Expr) →
      InStep R (fun S => List.Forall₂ S) (evaluateAll b es) (evaluateAll b es)
  | [] => by
      rw [evaluateAll]
      exact .pure .nil
  | e :: es => by
      rw [evaluateAll]
      refine (inStep_evaluate hb e).bind fun S hS _ _ hv => ?_
      refine (inStep_evaluateAll (hb.mono hS) es).bind fun S' hS' _ _ hvs => ?_
      exact .pure (.cons (hS' _ _ hv) hvs)

theorem inStep_evaluateLinks
    {R : Ref → Ref → Prop} {b : Bindings} {left left' : Ref}
    (hb : Fixes R b)
    (hl : R left left') :
    (links : List (CompareOp × Expr)) →
      InStepRef R (evaluateLinks b left links) (evaluateLinks b left' links)
  | [] => by
      rw [evaluateLinks, evaluateLinks]
      exact inStep_fresh (.bool true)
  | (op, e) :: links => by
      rw [evaluateLinks, evaluateLinks]
      refine (inStep_evaluate hb e).bind fun S hS _ _ hr => .get_bind fun _ _ ha => ?_
      have hcompared := Concur.of_eq (compare_eq ha op (hS _ _ hl) hr)
      refine (InStep.lift (T := fun _ => Eq) hcompared).bind ?_
      rintro S' hS' answer _ rfl
      exact .ite answer (inStep_evaluateLinks ((hb.mono hS).mono hS') (hS' _ _ hr) links)
        (inStep_fresh (.bool false))

end

end Eval

/-! ### Evaluators -/

/-- Outcomes of evaluating one expression on alike heaps. -/
inductive Evaluation.Alike (R : Ref → Ref → Prop) (h g : Heap) : Evaluation → Evaluation → Prop
  | value {S : Ref → Ref → Prop} {r r' : Ref} {h' g' : Heap} :
      Eval.Grown R h g S h' g' → S r r' → Alike R h g (.value r h') (.value r' g')
  | fault (error : EvalError) : Alike R h g (.fault error) (.fault error)
  | panic : Alike R h g .panic .panic

/-- An evaluator does not look at identities, and adds cells only. -/
def IsUniform (evaluate : String → Bindings → Heap → Evaluation) : Prop :=
  ∀ {R : Ref → Ref → Prop} {h g : Heap} {b : Bindings} (source : String),
    Heap.Alike R h g → Eval.Fixes R b →
      Evaluation.Alike R h g (evaluate source b h) (evaluate source b g)

/-- The evaluator of expressions depends on a heap only through what the bindings reach. -/
theorem evaluateExpression_isUniform : IsUniform evaluateExpression := by
  intro R h g b source ha hb
  unfold evaluateExpression ExprCache.evaluate
  cases ExprCache.compiled ∅ source with
  | mk outcome cache =>
      cases outcome with
      | error e =>
          exact .fault e
      | ok tree =>
          have hrun := Eval.inStep_evaluate hb tree h g ha
          dsimp only
          generalize (Eval.evaluate b tree).run h = m at hrun ⊢
          generalize (Eval.evaluate b tree).run g = m' at hrun ⊢
          cases hrun with
          | error e => exact .fault e
          | ok hend =>
              obtain ⟨S, hgrown, hrr⟩ := hend
              exact .value hgrown hrr

end LiveProbe
