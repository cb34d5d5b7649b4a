import LiveProbe.Proofs.Expr.Growing
import LiveProbe.Proofs.Expr.Uniform

/-!
# Chains of comparisons

A chain of comparisons means the conjunction of its links.

The chain evaluates an operand in the middle once and compares the same value twice. The
conjunction evaluates it once for each of the two links, in heaps that differ by the cells
that evaluation leaves behind, and compares two values.

**Specification.**  The links of a chain are comparisons of two operands
(`Expr.comparisons`), which the conjunction nests to the left (`Expr.conjunction`).

**Invariant.**  The heap of the chain and that of the conjunction have both grown from the
heap of the bindings, so that an operand has alike values in both.

**Results.**
* `Eval.evaluate_foldl_and`: a left-nested conjunction goes from one conjunct to the next
  while the conjuncts hold.
* `Eval.concur_links`: the rest of a chain and the rest of its conjunction come to the same
  end, by induction on the links.
* `Eval.evaluateLinks_append`: a link that does not hold ends the chain.
* `Eval.chain_is_conjunction`: a chain and its conjunction come to one boolean or one fault.
-/

namespace LiveProbe

namespace Expr

/-- The links of a chain from a first operand, as comparisons of two operands. -/
def comparisons (left : Expr) : List (CompareOp × Expr) → List Expr
  | [] => []
  | (op, right) :: links => .compare left [(op, right)] :: comparisons right links

/-- The conjunction of the links of a chain, nested to the left. -/
def conjunction
    (first : Expr) (link : CompareOp × Expr) (links : List (CompareOp × Expr)) : Expr :=
  (comparisons link.2 links).foldl .and (.compare first [link])

end Expr

namespace Eval

/-- The value that evaluation of a tree comes to. -/
def outcome (b : Bindings) (e : Expr) (h : Heap) : Except EvalError Value :=
  (fun p => p.2.read p.1) <$> (evaluate b e).run h

/-! ### Conjunctions -/

/-- One more conjunct, evaluated if what there is holds. -/
def conjoin (b : Bindings) (r : Ref) (e : Expr) : Evaluating Ref := do
  if (← valueOf r).isTruthy then evaluate b e else return r

section Conjunctions

variable {b : Bindings} {h : Heap} {r : Ref}

/-- A conjunction of many is evaluated from left to right. -/
theorem evaluate_foldl_and
    (b : Bindings) (e : Expr) (es : List Expr) :
    evaluate b (es.foldl .and e) = evaluate b e >>= fun r => es.foldlM (conjoin b) r := by
  induction es generalizing e with
  | nil =>
      simp only [List.foldl_nil, List.foldlM_nil, bind_pure]
  | cons e' es ih =>
      have hand : evaluate b (.and e e') = evaluate b e >>= fun r => conjoin b r e' := by
        rw [evaluate]
        rfl
      simp only [List.foldl_cons, List.foldlM_cons, ih, hand, bind_assoc]

theorem conjoin_of_true
    (hr : h.read r = .bool true)
    (e : Expr) :
    (conjoin b r e).run h = (evaluate b e).run h := by
  rw [conjoin, run_bind_ok (run_valueOf hr)]
  rfl

theorem foldlM_conjoin_of_false
    (hr : h.read r = .bool false)
    (es : List Expr) :
    (es.foldlM (conjoin b) r).run h = .ok (r, h) := by
  induction es with
  | nil =>
      rfl
  | cons e es ih =>
      have hkept : (conjoin b r e).run h = .ok (r, h) := by
        rw [conjoin, run_bind_ok (run_valueOf hr)]
        rfl
      rw [List.foldlM_cons, run_bind_ok hkept, ih]

/-- A conjunct that does not hold is the value of the conjunction. -/
theorem run_conjoin_fresh_false
    (es : List Expr) (g : Heap) :
    (fresh (.bool false) >>= fun r => es.foldlM (conjoin b) r).run g =
      (fresh (.bool false)).run g := by
  obtain ⟨r, g', hrun, hr, -⟩ := exists_run_fresh (.bool false) g
  rw [run_bind_ok hrun, foldlM_conjoin_of_false hr, hrun]

end Conjunctions

/-! ### Links -/

section Links

variable {b : Bindings} {h h' : Heap} {left right : Ref} {op : CompareOp} {e : Expr}
  {links : List (CompareOp × Expr)}

/-- The fault of an operand is that of the chain. -/
theorem run_evaluateLinks_of_error
    {fault : EvalError}
    (hright : (evaluate b e).run h = .error fault) :
    (evaluateLinks b left ((op, e) :: links)).run h = .error fault := by
  rw [evaluateLinks, run_bind_error hright]

/-- A link that holds leads on to the next one, from its own right side. -/
theorem run_evaluateLinks_of_ok
    (hright : (evaluate b e).run h = .ok (right, h')) :
    (evaluateLinks b left ((op, e) :: links)).run h =
      compare h' op left right >>= fun answer =>
        (if answer then evaluateLinks b right links else fresh (.bool false)).run h' := by
  have hget : (get : Evaluating Heap).run h' = .ok (h', h') := rfl
  rw [evaluateLinks, run_bind_ok hright, run_bind_ok hget]
  cases compare h' op left right with
  | error fault => exact run_bind_error rfl
  | ok answer => exact run_bind_ok rfl

theorem run_evaluateLinks_single
    (hright : (evaluate b e).run h = .ok (right, h')) :
    (evaluateLinks b left [(op, e)]).run h =
      compare h' op left right >>= fun answer => (fresh (.bool answer)).run h' := by
  rw [run_evaluateLinks_of_ok hright]
  refine bind_congr fun answer => ?_
  cases answer with
  | false => rfl
  | true => rw [if_pos rfl, evaluateLinks]

/-- What follows a link that does not hold is not evaluated. -/
theorem evaluateLinks_append
    {r : Ref}
    (hrun : (evaluateLinks b left links).run h = .ok (r, h'))
    (hr : h'.read r = .bool false)
    (more : List (CompareOp × Expr)) :
    (evaluateLinks b left (links ++ more)).run h = .ok (r, h') := by
  induction links generalizing left h with
  | nil =>
      have htrue : h'.read r = .bool true := by
        rw [evaluateLinks] at hrun
        cases hrun
        exact h.read_alloc_self _
      rw [htrue] at hr
      cases hr
  | cons link links ih =>
      obtain ⟨op, e⟩ := link
      rw [List.cons_append]
      cases hright : (evaluate b e).run h with
      | error fault =>
          rw [run_evaluateLinks_of_error hright] at hrun
          cases hrun
      | ok p =>
          obtain ⟨right, h₁⟩ := p
          rw [run_evaluateLinks_of_ok hright] at hrun ⊢
          cases hanswer : compare h₁ op left right with
          | error fault =>
              rw [hanswer] at hrun
              cases hrun
          | ok answer =>
              rw [hanswer] at hrun
              cases answer with
              | true => exact ih hrun
              | false => exact hrun

end Links

/-! ### Chains beside their conjunctions -/

/-- Ends with one boolean. -/
def SameAnswer (p p' : Ref × Heap) : Prop :=
  ∃ answer : Bool, p.2.read p.1 = .bool answer ∧ p'.2.read p'.1 = .bool answer

theorem concur_fresh
    (answer : Bool) (h g : Heap) :
    Concur SameAnswer ((fresh (.bool answer)).run h) ((fresh (.bool answer)).run g) :=
  .ok ⟨answer, h.read_alloc_self _, g.read_alloc_self _⟩

/-- A cell holds what a tree comes to wherever the heap of the bindings has grown. -/
def Recalls (b : Bindings) (h : Heap) (e : Expr) (r : Ref) (h₁ : Heap) : Prop :=
  ∀ ⦃g⦄, h.Extends g → ∃ r' g' S, (evaluate b e).run g = .ok (r', g') ∧
    (∀ x y, h.Same x y → S x y) ∧ Heap.Alike S h₁ g' ∧ h.Extends g' ∧ S r r'

section Chains

variable {b : Bindings} {h h₁ h₂ g : Heap} {left : Ref} {op : CompareOp} {e e' : Expr}
  {links : List (CompareOp × Expr)}

/-- An operand that is evaluated again has the same value, though not the same identity. -/
theorem recalls_evaluate
    (hclosed : h.IsClosed)
    (hb : Fixes h.Same b)
    (hh : h.Extends h₁)
    (hrun : (evaluate b e).run h₁ = .ok (left, h₂)) :
    Recalls b h e left h₂ := by
  intro g hg
  have halike := ((Heap.Alike.refl hclosed).of_extends hg).of_extends_left hh
  have hends := inStep_evaluate hb e h₁ g halike
  rw [hrun] at hends
  obtain ⟨⟨left', g'⟩, hrun', S, hgrown, hlefts⟩ := hends.exists_ok
  exact ⟨left', g', S, hrun', hgrown.pairs, hgrown.alike, hg.trans hgrown.right, hlefts⟩

/-- One link of a chain beside its conjunct. -/
theorem concur_link
    {es : List Expr}
    (hb : Fixes h.Same b)
    (hg : h.Extends g)
    (hrecalls : Recalls b h e left h₁)
    (hrest : ∀ {right h₂ g₂}, (evaluate b e').run h₁ = .ok (right, h₂) → h.Extends g₂ →
        Concur SameAnswer ((evaluateLinks b right links).run h₂)
        ((fresh (.bool true) >>= fun r => es.foldlM (conjoin b) r).run g₂)) :
    Concur SameAnswer ((evaluateLinks b left ((op, e') :: links)).run h₁)
      ((evaluate b (.compare e [(op, e')]) >>= fun r => es.foldlM (conjoin b) r).run g) := by
  obtain ⟨left', g₁, S, hleft, hS, halike, hg₁, hlefts⟩ := hrecalls hg
  have hconjunct : (evaluate b (.compare e [(op, e')])).run g =
      (evaluateLinks b left' [(op, e')]).run g₁ := by
    rw [evaluate, run_bind_ok hleft]
  have hends := inStep_evaluate (hb.mono hS) e' h₁ g₁ halike
  cases hright : (evaluate b e').run h₁ with
  | error fault =>
      rw [hright] at hends
      rw [run_evaluateLinks_of_error hends.eq_error] at hconjunct
      rw [run_evaluateLinks_of_error hright, run_bind_error hconjunct]
      exact .error fault
  | ok p =>
      obtain ⟨right, h₂⟩ := p
      rw [hright] at hends
      obtain ⟨⟨right', g₂⟩, hright', S', hgrown, hrights⟩ := hends.exists_ok
      have hanswers : compare h₂ op left right = compare g₂ op left' right' :=
        compare_eq hgrown.alike op (hgrown.pairs _ _ hlefts) hrights
      rw [run_evaluateLinks_single hright'] at hconjunct
      rw [run_evaluateLinks_of_ok hright, hanswers]
      cases hanswer : compare g₂ op left' right' with
      | error fault =>
          rw [hanswer] at hconjunct
          rw [run_bind_error hconjunct]
          exact .error fault
      | ok answer =>
          have hlink : (evaluate b (.compare e [(op, e')])).run g =
              (fresh (.bool answer)).run g₂ := by
            rw [hconjunct, hanswer]
            rfl
          rw [run_bind_congr hlink]
          cases answer with
          | false =>
              rw [run_conjoin_fresh_false]
              exact concur_fresh false h₂ g₂
          | true =>
              exact hrest hright (hg₁.trans hgrown.right)

/-- The induction is on the links after the first, whose operand in the middle the
conjunction evaluates again. -/
theorem concur_links
    (hclosed : h.IsClosed)
    (hb : Fixes h.Same b)
    (hh : h.Extends h₁)
    (hg : h.Extends g)
    (hrecalls : Recalls b h e left h₁) :
    Concur SameAnswer ((evaluateLinks b left ((op, e') :: links)).run h₁)
      ((evaluate b (.compare e [(op, e')]) >>= fun r =>
        (Expr.comparisons e' links).foldlM (conjoin b) r).run g) := by
  induction links generalizing op e e' left h₁ g with
  | nil =>
      refine concur_link hb hg hrecalls fun {right h₂ g₂} _ _ => ?_
      rw [evaluateLinks]
      exact concur_fresh true h₂ g₂
  | cons link links ih =>
      obtain ⟨op', e''⟩ := link
      refine concur_link hb hg hrecalls fun {right h₂ g₂} hright hg₂ => ?_
      have hh₂ := hh.trans (grows_evaluate b e' hright)
      obtain ⟨r, g₃, htrue, hr, hg₃⟩ := exists_run_fresh (.bool true) g₂
      rw [run_bind_ok htrue, Expr.comparisons, List.foldlM_cons,
        run_bind_congr (conjoin_of_true hr _)]
      exact ih hh₂ (hg₂.trans hg₃) (recalls_evaluate hclosed hb hh hright)

/-- A chain and the conjunction of its links have the same answer or the same fault. -/
theorem concur_conjunction
    (hclosed : h.IsClosed)
    (hb : Fixes h.Same b)
    (first : Expr) (link : CompareOp × Expr) (links : List (CompareOp × Expr)) :
    Concur SameAnswer ((evaluate b (.compare first (link :: links))).run h)
      ((evaluate b (.conjunction first link links)).run h) := by
  obtain ⟨op, e'⟩ := link
  rw [Expr.conjunction, evaluate_foldl_and]
  cases hfirst : (evaluate b first).run h with
  | error fault =>
      have hchain : ∀ links, (evaluate b (.compare first links)).run h = .error fault := by
        intro links
        rw [evaluate, run_bind_error hfirst]
      rw [hchain, run_bind_error (hchain _)]
      exact .error fault
  | ok p =>
      obtain ⟨left, h₁⟩ := p
      have hrefl := Heap.Extends.refl h
      rw [evaluate, run_bind_ok hfirst]
      exact concur_links hclosed hb (grows_evaluate b first hfirst) hrefl
        (recalls_evaluate hclosed hb hrefl hfirst)

/-- A chain of comparisons and the conjunction of its links come to one boolean or to one
fault.  Once a link does not hold, no further link changes anything: the operands behind it
are not evaluated. -/
theorem chain_is_conjunction
    {b : Bindings} {h : Heap}
    (hclosed : h.IsClosed)
    (hbound : ∀ p ∈ b.pairs, p.2 < h.size)
    (first : Expr) (link : CompareOp × Expr) (links : List (CompareOp × Expr)) :
    (∃ answer : Except EvalError Bool,
      outcome b (.compare first (link :: links)) h = answer.map .bool ∧
        outcome b (.conjunction first link links) h = answer.map .bool) ∧
      ∀ more r h', (evaluate b (.compare first (link :: links))).run h = .ok (r, h') →
        h'.read r = .bool false →
          (evaluate b (.compare first (link :: links ++ more))).run h = .ok (r, h') := by
  constructor
  · have hconcur := concur_conjunction hclosed (fun p hp => ⟨rfl, hbound p hp⟩) first link links
    rw [outcome, outcome]
    generalize (evaluate b (.compare first (link :: links))).run h = m at hconcur ⊢
    generalize (evaluate b (.conjunction first link links)).run h = m' at hconcur ⊢
    cases hconcur with
    | error fault =>
        exact ⟨.error fault, rfl, rfl⟩
    | ok hsame =>
        obtain ⟨answer, hchain, hconjunction⟩ := hsame
        exact ⟨.ok answer, congrArg Except.ok hchain, congrArg Except.ok hconjunction⟩
  · intro more r h' hrun hr
    rw [evaluate] at hrun ⊢
    cases hfirst : (evaluate b first).run h with
    | error fault =>
        rw [run_bind_error hfirst] at hrun
        cases hrun
    | ok p =>
        rw [run_bind_ok hfirst] at hrun ⊢
        exact evaluateLinks_append hrun hr more

end Chains

/-- A number bound to a name. -/
def numbered : Heap := ⟨#[.int 1]⟩

/-- The chain `x is not [x] is not [x] is [x] < y`, where nothing is bound to `y`: the lists
are new ones each time, and the last link is not reached. -/
theorem chain_is_conjunction_unreached :
    outcome ⟨[("x", 0)]⟩ (.conjunction (.name "x") (.notSame, .list [.name "x"])
        [(.notSame, .list [.name "x"]), (.same, .list [.name "x"])]) numbered =
      .ok (.bool false) ∧
    ∃ h', (evaluate ⟨[("x", 0)]⟩ (.compare (.name "x") [(.notSame, .list [.name "x"]),
        (.notSame, .list [.name "x"]), (.same, .list [.name "x"]), (.lt, .name "y")])).run
        numbered = .ok (4, h') ∧ h'.read 4 = .bool false := by
  have hclosed : numbered.IsClosed := by
    rw [Heap.IsClosed]
    decide
  obtain ⟨⟨answer, hchain, hconjunction⟩, hlater⟩ :=
    chain_is_conjunction (b := ⟨[("x", 0)]⟩) hclosed (by decide) (.name "x")
      (.notSame, .list [.name "x"]) [(.notSame, .list [.name "x"]), (.same, .list [.name "x"])]
  exact ⟨hconjunction.trans (hchain.symm.trans rfl), _, hlater [(.lt, .name "y")] 4 _ rfl rfl, rfl⟩

end Eval
end LiveProbe
