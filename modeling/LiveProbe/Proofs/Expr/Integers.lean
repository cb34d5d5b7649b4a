import LiveProbe.Proofs.Decimal.Exact
import LiveProbe.Proofs.Expr.Growing
import Mathlib.Data.Int.ModEq

/-!
# Integer results

What the integer operators and the conversion to an integer make of their operands.

**Specification.**  Integers and truth values count as integers (`Value.integer?`).  An
operator is exact or overflows (`Eval.ExactOrOverflow`) if it returns the mathematical
result where 64 bits hold it and reports an overflow elsewhere.  The remainder by a number
other than zero is the only one of its kind (`Eval.IsRemainder`).  A floating-point number
is converted by cutting the fraction of the number that it stands for
(`Decimal.towardZero`).

**Refused and clamped.**  Two kinds of operands are not treated so.  The remainder of the
least integer by minus one is zero, but it is refused as an overflow, because the quotient
is one.  Numbers beyond 64 bits are converted to the bound next to them, while numerals
beyond 64 bits, infinities and results of the operators are refused.

**Results.**
* `Eval.arithmeticRules_integers`, `Eval.exactOrOverflow_negate`,
  `Eval.conversionRules_toInteger`: one operator each.
* `Eval.evaluate_exact_or_overflow`: a tree of integer operators, by induction on its meaning.
* `Eval.integers_exact_or_overflow`: all of them, for trees with arbitrary operands.
* `Eval.remainder_refused_and_number_clamped`: the two kinds of operands exist.
-/

namespace LiveProbe

/-- The integer that a value counts as. -/
def Value.integer? : Value → Option Int
  | .int i => some i.toInt
  | .bool b => some (if b then 1 else 0)
  | _ => Option.none

namespace Eval

open Decimal (rational? towardZero)

/-- What an evaluation comes to. -/
abbrev Outcome := Except EvalError (Ref × Heap)

/-- The integer has 64 bits. -/
def Fits (n : Int) : Prop := -2 ^ 63 ≤ n ∧ n < 2 ^ 63

/-- The outcome is an integer value. -/
def Returns (out : Outcome) (n : Int) : Prop :=
  ∃ r h i, out = .ok (r, h) ∧ h.read r = .int i ∧ i.toInt = n

/-- The result where it fits, and an overflow elsewhere. -/
structure ExactOrOverflow (out : Outcome) (n : Int) : Prop where
  exact : Fits n → Returns out n
  overflow : ¬ Fits n → out = .error .overflow

/-- The remainder of `m` by `n`: congruent to `m`, smaller than `n`, and zero or of the sign
of `n`. -/
structure IsRemainder (m n r : Int) : Prop where
  congruent : r ≡ m [ZMOD n]
  small : |r| < |n|
  sign : r = 0 ∨ r.sign = n.sign

/-- What the operators make of two integers. -/
structure ArithmeticRules (out : BinaryOp → Outcome) (m n : Int) : Prop where
  add : ExactOrOverflow (out .add) (m + n)
  sub : ExactOrOverflow (out .sub) (m - n)
  mul : ExactOrOverflow (out .mul) (m * n)
  byZero : n = 0 → out .div = .error .divisionByZero ∧ out .mod = .error .divisionByZero
  remainder : n ≠ 0 → ∃ r, Fits r ∧ (∀ r', IsRemainder m n r' ↔ r' = r) ∧
    (Returns (out .mod) r ↔ ¬ (m = -2 ^ 63 ∧ n = -1))
  refused : m = -2 ^ 63 → n = -1 → out .mod = .error .overflow

/-- What the conversion to an integer makes of a floating-point number with a text. -/
structure ConversionRules (out : Outcome) (x : Float) (text : String) : Prop where
  exact : ∀ q, rational? x = some q → Fits (towardZero q) → Returns out (towardZero q)
  clamped : ∀ q, rational? x = some q → ¬ Fits (towardZero q) →
    Returns out (if q < 0 then -2 ^ 63 else 2 ^ 63 - 1)
  refused : rational? x = none → out = .error (.invalidConversion "int" text)

/-- The tree has an integer value, in a heap of its own. -/
def Yields (b : Bindings) (h : Heap) (e : Expr) (n : Int) (h' : Heap) : Prop :=
  ∃ r, (evaluate b e).run h = .ok (r, h') ∧ (h'.read r).integer? = some n

/-- The integer that a tree of integer operators stands for, whatever its size. -/
inductive Means (b : Bindings) (h : Heap) : Expr → Int → Prop
  | int (i : Int64) : Means b h (.int i) i.toInt
  | bool (value : Bool) : Means b h (.bool value) (if value then 1 else 0)
  | name {name : String} {r : Ref} {n : Int} :
      b.get? name = some r → (h.read r).integer? = some n → Means b h (.name name) n
  | negate {e : Expr} {n : Int} : Means b h e n → Means b h (.negate e) (-n)
  | add {e e' : Expr} {m n : Int} :
      Means b h e m → Means b h e' n → Means b h (.binary .add e e') (m + n)
  | sub {e e' : Expr} {m n : Int} :
      Means b h e m → Means b h e' n → Means b h (.binary .sub e e') (m - n)
  | mul {e e' : Expr} {m n : Int} :
      Means b h e m → Means b h e' n → Means b h (.binary .mul e e') (m * n)
  | mod {e e' : Expr} {m n r : Int} :
      Means b h e m → Means b h e' n → IsRemainder m n r → Means b h (.binary .mod e e') r

/-! ### Remainders -/

section Remainders

variable {m n r : Int}

/-- Negating both numbers negates the remainder, which is how the two signs of the divisor are one
case. -/
theorem IsRemainder.neg
    (h : IsRemainder m n r) :
    IsRemainder (-m) (-n) (-r) := by
  constructor
  · exact Int.modEq_neg.mpr h.congruent.neg
  · rw [abs_neg, abs_neg]
    exact h.small
  · rw [neg_eq_zero, Int.sign_neg, Int.sign_neg, neg_inj]
    exact h.sign

/-- For a positive divisor the remainder with its sign is that of the floored division. -/
theorem isRemainder_iff_of_pos
    (hn : 0 < n) :
    IsRemainder m n r ↔ r = m.fmod n := by
  have hnonneg := Int.emod_nonneg m hn.ne'
  have hlt := Int.emod_lt_of_pos m hn
  rw [Int.fmod_eq_emod_of_nonneg m hn.le]
  constructor
  · intro h
    have hsmall := abs_lt.mp (h.small.trans_eq (abs_of_pos hn))
    have hr : 0 ≤ r := by
      rcases h.sign with hzero | hsign
      · exact hzero.ge
      · rw [Int.sign_eq_one_of_pos hn, Int.sign_eq_one_iff_pos] at hsign
        exact hsign.le
    rw [← h.congruent, Int.emod_eq_of_lt hr hsmall.2]
  · rintro rfl
    constructor
    · exact Int.mod_modEq m n
    · rw [abs_of_nonneg hnonneg, abs_of_pos hn]
      exact hlt
    · rcases hnonneg.eq_or_lt with hzero | hpos
      · exact .inl hzero.symm
      · rw [Int.sign_eq_one_of_pos hpos, Int.sign_eq_one_of_pos hn]
        exact .inr rfl

/-- There is one remainder with the divisor's sign, that of the floored division. -/
theorem isRemainder_iff
    (hn : n ≠ 0) :
    IsRemainder m n r ↔ r = m.fmod n := by
  rcases hn.lt_or_gt with hneg | hpos
  · have hmirror := @isRemainder_iff_of_pos (-m) (-n) (-r) (neg_pos.mpr hneg)
    rw [Int.neg_fmod_neg, neg_inj] at hmirror
    rw [← hmirror]
    constructor
    · exact IsRemainder.neg
    · intro h
      simpa using h.neg
  · exact isRemainder_iff_of_pos hpos

theorem IsRemainder.divisor_ne_zero
    (h : IsRemainder m n r) :
    n ≠ 0 := by
  rintro rfl
  exact absurd h.small (not_lt.mpr (abs_zero.trans_le (abs_nonneg r)))

/-- A remainder lies between zero and its divisor, so it fits where the divisor does. -/
theorem IsRemainder.fits
    (h : IsRemainder m n r)
    (hn : Fits n) :
    Fits r := by
  have hsmall := h.small
  rw [Int.abs_eq_natAbs, Int.abs_eq_natAbs] at hsmall
  rw [Fits] at hn ⊢
  omega

end Remainders

/-! ### Results of 64 bits -/

theorem fits_toInt
    (i : Int64) :
    Fits i.toInt := ⟨i.le_toInt, i.toInt_lt⟩

theorem toInt_bit
    (value : Bool) :
    (bit value).toInt = if value then 1 else 0 := by
  cases value <;> rfl

/-- An integer just made is the one that is returned. -/
theorem returns_fresh
    (h : Heap) (i : Int64) :
    Returns ((fresh (.int i)).run h) i.toInt :=
  ⟨_, _, i, rfl, h.read_alloc_self (.int i), rfl⟩

theorem Returns.ne_error
    {out : Outcome} {n : Int} {e : EvalError}
    (h : Returns out n) :
    out ≠ .error e := by
  obtain ⟨r, h, i, rfl, -⟩ := h
  exact nofun

/-- A checked result is exact where it fits, and an overflow elsewhere. -/
theorem exactOrOverflow_integer
    (h : Heap) (n : Int) :
    ExactOrOverflow ((integer (fit? n)).run h) n := by
  have hnone := fit?_eq_none_iff n
  cases hfit : fit? n with
  | some i =>
      obtain rfl := toInt_of_fit? hfit
      exact ⟨fun _ => returns_fresh h i, fun hn => absurd (fits_toInt i) hn⟩
  | none =>
      refine ⟨fun hn => absurd ?_ (hnone.mp hfit), fun _ => rfl⟩
      rw [Fits] at hn
      omega

/-! ### One operator -/

/-- The rules for two machine integers, operator by operator. -/
theorem arithmeticRules_integers
    (h : Heap) (a c : Int64) :
    ArithmeticRules (fun op => (integers op a c).run h) a.toInt c.toInt := by
  have hzero : c.toInt = 0 ↔ c = 0 := @Int64.toInt_inj c 0
  have hleast : a.toInt = -2 ^ 63 ↔ a = Int64.minValue := @Int64.toInt_inj a Int64.minValue
  have hminus : c.toInt = -1 ↔ c = -1 := @Int64.toInt_inj c (-1)
  constructor
  · exact exactOrOverflow_integer h _
  · exact exactOrOverflow_integer h _
  · exact exactOrOverflow_integer h _
  · intro hc
    simp only [integers, if_pos (hzero.mp hc)]
    exact ⟨rfl, rfl⟩
  · intro hc
    have honly := fun r' => @isRemainder_iff a.toInt c.toInt r' hc
    have hfits := ((honly _).mpr rfl).fits (fits_toInt c)
    refine ⟨_, hfits, honly, ?_⟩
    simp only [integers, if_neg (mt hzero.mpr hc), hleast, hminus]
    split
    · next hrefused => exact iff_of_false (fun h => h.ne_error rfl) (not_not_intro hrefused)
    · next hregular => exact iff_of_true ((exactOrOverflow_integer h _).exact hfits) hregular
  · intro ha hc
    have hne : c.toInt ≠ 0 := by
      rw [hc]
      decide
    simp only [integers, if_neg (mt hzero.mpr hne),
      if_pos (And.intro (hleast.mp ha) (hminus.mp hc))]
    rfl

theorem exists_int64_of_integer?
    {v : Value} {n : Int}
    (hv : v.integer? = some n) :
    ∃ i : Int64, v.number? = some (.int i) ∧ i.toInt = n := by
  cases v with
  | int i => exact ⟨i, rfl, Option.some.inj hv⟩
  | bool value => exact ⟨bit value, rfl, (toInt_bit value).trans (Option.some.inj hv)⟩
  | _ => cases hv

/-- Only strings and rows are joined. -/
theorem run_binary_of_integer?
    {h : Heap} {left right : Ref} {m : Int}
    (op : BinaryOp)
    (hleft : (h.read left).integer? = some m) :
    (binary op left right).run h =
      (arithmetic op (h.read left) (h.read right)).run h := by
  rw [binary, run_bind_ok (run_valueOf rfl), run_bind_ok (run_valueOf rfl)]
  cases hv : h.read left with
  | int i => cases op <;> rfl
  | bool value => cases op <;> rfl
  | _ =>
      rw [hv] at hleft
      cases hleft

/-- The rules for two values that count as integers, truth values among them. -/
theorem arithmeticRules_binary
    {h : Heap} {left right : Ref} {m n : Int}
    (hleft : (h.read left).integer? = some m)
    (hright : (h.read right).integer? = some n) :
    ArithmeticRules (fun op => (binary op left right).run h) m n := by
  obtain ⟨a, ha, hm⟩ := exists_int64_of_integer? hleft
  obtain ⟨c, hc, hn⟩ := exists_int64_of_integer? hright
  simp only [run_binary_of_integer? _ hleft, arithmetic, ha, hc]
  rw [← hm, ← hn]
  exact arithmeticRules_integers h a c

/-- Negation of a value that counts as an integer is exact or an overflow. -/
theorem exactOrOverflow_negate
    {h : Heap} {operand : Ref} {n : Int}
    (hoperand : (h.read operand).integer? = some n) :
    ExactOrOverflow ((negate operand).run h) (-n) := by
  rw [negate, run_bind_ok (run_valueOf rfl)]
  cases hv : h.read operand with
  | int i =>
      rw [hv] at hoperand
      cases hoperand
      exact exactOrOverflow_integer h _
  | bool value =>
      rw [hv] at hoperand
      cases hoperand
      -- the negative of a bit always fits
      have hbit : (-bit value).toInt = -(if value then 1 else 0) := by
        cases value <;> rfl
      rw [← hbit]
      exact ⟨fun _ => returns_fresh h _, fun hn => absurd (fits_toInt _) hn⟩
  | _ =>
      rw [hv] at hoperand
      cases hoperand

/-! ### Conversion -/

/-- Conversion takes the exact value of a finite number towards zero and clamps it. -/
theorem wholePart?_eq
    (x : Float) :
    wholePart? x = (rational? x).map fun q => clamp (towardZero q) := by
  rw [← Decimal.rational?_ofFloat, wholePart?]
  cases Decimal.Binary.ofFloat x with
  | finite negative m =>
      rw [Decimal.Binary.rational?, Option.map_some, ← Decimal.truncate_eq_towardZero]
  | infinite | nan => rfl

theorem toInt_clamp_of_fits
    {n : Int}
    (hn : Fits n) :
    (clamp n).toInt = n := by
  rw [Fits] at hn
  rw [clamp, if_neg (by omega), if_neg (by omega)]
  exact Int64.toInt_ofInt_of_le hn.1 hn.2

/-- Out of range, the clamped value is the end of the range on the number's side. -/
theorem toInt_clamp_towardZero
    {q : ℚ}
    (hq : ¬ Fits (towardZero q)) :
    (clamp (towardZero q)).toInt = if q < 0 then -2 ^ 63 else 2 ^ 63 - 1 := by
  rw [Fits] at hq
  rw [clamp]
  by_cases hneg : q < 0
  · have hle : towardZero q ≤ 0 := by
      rw [towardZero, if_pos hneg]
      exact Int.ceil_nonpos.mpr hneg.le
    rw [if_pos hneg, if_pos (by omega)]
    rfl
  · have hge : 0 ≤ towardZero q := by
      rw [towardZero, if_neg hneg]
      exact Int.floor_nonneg.mpr (not_lt.mp hneg)
    rw [if_neg hneg, if_neg (by omega), if_pos (by omega)]
    rfl

/-- The rules for a number that is converted to an integer. -/
theorem conversionRules_toInteger
    {h : Heap} {r : Ref} {x : Float}
    (hr : h.read r = .float x) :
    ConversionRules ((toInteger r).run h) x (h.textOf r) := by
  rw [toInteger, run_bind_ok (run_valueOf hr)]
  dsimp only
  rw [wholePart?_eq]
  constructor
  · intro q hq hfits
    have hreturns := returns_fresh h (clamp (towardZero q))
    rw [toInt_clamp_of_fits hfits] at hreturns
    rw [hq]
    exact hreturns
  · intro q hq hlarge
    rw [hq, ← toInt_clamp_towardZero hlarge]
    exact returns_fresh h _
  · intro hq
    rw [hq]
    rfl

/-! ### Operands -/

section Operands

variable {b : Bindings} {h h₁ h₂ : Heap} {e e' : Expr} {m n : Int}

/-- An expression that ends by making an integer yields it. -/
theorem yields_of_alloc
    {v : Value}
    (hrun : (evaluate b e).run h = .ok (h.alloc v))
    (hv : v.integer? = some n) :
    Yields b h e n (h.alloc v).2 := by
  refine ⟨(h.alloc v).1, hrun, ?_⟩
  rw [h.read_alloc_self, hv]

theorem yields_int
    (b : Bindings) (i : Int64) (h : Heap) :
    Yields b h (.int i) i.toInt (h.alloc (.int i)).2 := by
  refine yields_of_alloc ?_ rfl
  rw [evaluate]
  rfl

theorem integer?_of_extends
    {r : Ref}
    (hgrown : h.Extends h₁)
    (hr : (h.read r).integer? = some n) :
    (h₁.read r).integer? = some n :=
  hgrown.map_read_eq_some rfl hr

/-- The rules for expressions, from those for the values of the two operands. -/
theorem arithmeticRules_evaluate
    (hleft : Yields b h e m h₁)
    (hright : Yields b h₁ e' n h₂) :
    ArithmeticRules (fun op => (evaluate b (.binary op e e')).run h) m n := by
  obtain ⟨r, hrun, hm⟩ := hleft
  obtain ⟨r', hrun', hn⟩ := hright
  have hkept := integer?_of_extends (grows_evaluate b e' hrun') hm
  have hboth : ∀ op, (evaluate b (.binary op e e')).run h = (binary op r r').run h₂ := by
    intro op
    rw [evaluate, run_bind_ok hrun, run_bind_ok hrun']
  simp only [hboth]
  exact arithmeticRules_binary hkept hn

theorem exactOrOverflow_evaluate
    (hoperand : Yields b h e n h₁) :
    ExactOrOverflow ((evaluate b (.negate e)).run h) (-n) := by
  obtain ⟨r, hrun, hn⟩ := hoperand
  rw [evaluate, run_bind_ok hrun]
  exact exactOrOverflow_negate hn

theorem conversionRules_evaluate
    {r : Ref} {x : Float}
    (hrun : (evaluate b e).run h = .ok (r, h₁))
    (hr : h₁.read r = .float x) :
    ConversionRules ((evaluate b (.call "int" [e])).run h) x (h₁.textOf r) := by
  have hcall : (evaluate b (.call "int" [e])).run h = (toInteger r).run h₁ := by
    have hargs : (evaluateAll b [e]).run h = .ok ([r], h₁) := by
      rw [evaluateAll, run_bind_ok hrun, evaluateAll]
      rfl
    rw [evaluate, run_bind_ok hargs]
    rfl
  rw [hcall]
  exact conversionRules_toInteger hr

end Operands

/-! ### Trees -/

/-- The tree has its integer value, or its evaluation overflows. -/
def Settles (b : Bindings) (h : Heap) (e : Expr) (n : Int) : Prop :=
  (∃ h', Yields b h e n h') ∨ (evaluate b e).run h = .error .overflow

section Trees

variable {b : Bindings} {h : Heap} {e e' : Expr} {m n k : Int}

theorem Returns.settles
    (hreturns : Returns ((evaluate b e).run h) n) :
    Settles b h e n := by
  obtain ⟨r, h', i, hrun, hr, rfl⟩ := hreturns
  refine .inl ⟨h', r, hrun, ?_⟩
  rw [hr, Value.integer?]

theorem ExactOrOverflow.settles
    (hexact : ExactOrOverflow ((evaluate b e).run h) n) :
    Settles b h e n := by
  by_cases hn : Fits n
  · exact (hexact.exact hn).settles
  · exact .inr (hexact.overflow hn)

/-- An overflow of an operand is one of the tree. -/
theorem settles_binary
    {op : BinaryOp}
    (hleft : ∀ ⦃g⦄, h.Extends g → Settles b g e m)
    (hright : ∀ ⦃g⦄, h.Extends g → Settles b g e' n)
    (hop : ∀ {g g' g''}, Yields b g e m g' → Yields b g' e' n g'' →
        Settles b g (.binary op e e') k)
    {g : Heap}
    (hg : h.Extends g) :
    Settles b g (.binary op e e') k := by
  rcases hleft hg with ⟨g', hm⟩ | herror
  · obtain ⟨r, hrun, -⟩ := id hm
    rcases hright (hg.trans (grows_evaluate b e hrun)) with ⟨g'', hn⟩ | herror
    · exact hop hm hn
    · refine .inr ?_
      rw [evaluate, run_bind_ok hrun, run_bind_error herror]
  · refine .inr ?_
    rw [evaluate, run_bind_error herror]

/-- The induction is on the meaning of the tree; operands are evaluated in heaps that grow. -/
theorem evaluate_exact_or_overflow
    (hmeans : Means b h e n) :
    ∀ ⦃g⦄, h.Extends g → Settles b g e n := by
  induction hmeans with
  | int i =>
      intro g _
      exact .inl ⟨_, yields_int b i g⟩
  | bool value =>
      intro g _
      refine .inl ⟨(g.alloc (.bool value)).2, yields_of_alloc ?_ rfl⟩
      rw [evaluate]
      rfl
  | name hname hr =>
      intro g hg
      refine .inl ⟨g, _, ?_, integer?_of_extends hg hr⟩
      rw [evaluate, hname]
      rfl
  | negate hmeans ih =>
      intro g hg
      rcases ih hg with ⟨g', hn⟩ | herror
      · exact (exactOrOverflow_evaluate hn).settles
      · refine .inr ?_
        rw [evaluate, run_bind_error herror]
  | add _ _ ih ih' =>
      exact fun g => settles_binary ih ih' fun hm hn => (arithmeticRules_evaluate hm hn).add.settles
  | sub _ _ ih ih' =>
      exact fun g => settles_binary ih ih' fun hm hn => (arithmeticRules_evaluate hm hn).sub.settles
  | mul _ _ ih ih' =>
      exact fun g => settles_binary ih ih' fun hm hn => (arithmeticRules_evaluate hm hn).mul.settles
  | @mod _ _ m n r _ _ hr ih ih' =>
      refine fun g => settles_binary ih ih' fun hm hn => ?_
      have hrules := arithmeticRules_evaluate hm hn
      obtain ⟨r, -, honly, hreturns⟩ := hrules.remainder hr.divisor_ne_zero
      obtain rfl := (honly _).mp hr
      by_cases hrefused : m = -2 ^ 63 ∧ n = -1
      · exact .inr (hrules.refused hrefused.1 hrefused.2)
      · exact (hreturns.mpr hrefused).settles

end Trees

/-- Whatever the trees of the operands are: the result or the fault of an operator on
integers, of the conversion of a floating-point number, and of a tree of integer operators. -/
theorem integers_exact_or_overflow
    (b : Bindings) (h : Heap) :
    (∀ e e' m n h₁ h₂, Yields b h e m h₁ → Yields b h₁ e' n h₂ →
      ArithmeticRules (fun op => (evaluate b (.binary op e e')).run h) m n) ∧
    (∀ e n h₁, Yields b h e n h₁ → ExactOrOverflow ((evaluate b (.negate e)).run h) (-n)) ∧
    (∀ e r h₁ x, (evaluate b e).run h = .ok (r, h₁) → h₁.read r = .float x →
      ConversionRules ((evaluate b (.call "int" [e])).run h) x (h₁.textOf r)) ∧
    ∀ e n, Means b h e n → Settles b h e n := by
  refine ⟨?_, ?_, ?_, ?_⟩
  · intro e e' m n h₁ h₂ hleft hright
    exact arithmeticRules_evaluate hleft hright
  · intro e n h₁ hoperand
    exact exactOrOverflow_evaluate hoperand
  · intro e r h₁ x hrun hr
    exact conversionRules_evaluate hrun hr
  · intro e n hmeans
    exact evaluate_exact_or_overflow hmeans (.refl h)

/-- No names are bound. -/
def unbound : Bindings := ⟨[]⟩

theorem run_float
    (x : Float) (h : Heap) :
    (evaluate unbound (.float x)).run h = .ok (h.alloc (.float x)) := by
  rw [evaluate]
  rfl

/-- Remainder, negation and conversion of negative numbers. -/
theorem integers_exact_or_overflow_signs :
    Returns ((evaluate unbound (.binary .mod (.int 7) (.int (-3)))).run .empty) (-2) ∧
      Returns ((evaluate unbound (.negate (.int (-3)))).run .empty) 3 ∧
      Returns ((evaluate unbound
        (.call "int" [.float (Float.ofBits 0xC004000000000000)])).run .empty) (-2) := by
  obtain ⟨harithmetic, hnegate, hconvert, -⟩ := integers_exact_or_overflow unbound .empty
  refine ⟨?_, ?_, ?_⟩
  · have hrules := harithmetic _ _ _ _ _ _ (yields_int _ 7 .empty) (yields_int _ (-3) _)
    obtain ⟨r, -, honly, hreturns⟩ := hrules.remainder (by decide)
    obtain rfl := (honly (-2)).mp ⟨by decide, by decide, by decide⟩
    exact hreturns.mpr (by decide)
  · exact (hnegate _ _ _ (yields_int _ (-3) .empty)).exact ⟨by decide, by decide⟩
  · have hnumber : rational? (Float.ofBits 0xC004000000000000) = some (-(5 / 2)) := by
      have hparts : Decimal.Binary.ofFloat (Float.ofBits 0xC004000000000000) =
          .finite true ⟨0x14000000000000, -51, false⟩ := by rfl
      rw [Decimal.rational?_of_finite hparts]
      norm_num [Decimal.Magnitude.rational]
    have hwhole : towardZero (-(5 / 2)) = -2 := by norm_num [towardZero]
    have hreturns := (hconvert _ _ _ _ (run_float _ _) (Heap.read_alloc_self _ _)).exact _ hnumber
    rw [hwhole] at hreturns
    exact hreturns ⟨by decide, by decide⟩

/-- The remainder of the least integer by minus one is zero, and the first number beyond 64
bits is no integer of 64 bits. -/
theorem remainder_refused_and_number_clamped :
    (IsRemainder (-2 ^ 63) (-1) 0 ∧ Fits 0 ∧
      (evaluate unbound (.binary .mod (.int Int64.minValue) (.int (-1)))).run .empty =
        .error .overflow) ∧
    (rational? (Float.ofBits 0x43E0000000000000) = some (2 ^ 63) ∧
      towardZero (2 ^ 63) = 2 ^ 63 ∧ ¬ Fits (2 ^ 63) ∧
      Returns ((evaluate unbound
        (.call "int" [.float (Float.ofBits 0x43E0000000000000)])).run .empty) (2 ^ 63 - 1)) := by
  have hnumber : rational? (Float.ofBits 0x43E0000000000000) = some (2 ^ 63) := by
    have hparts : Decimal.Binary.ofFloat (Float.ofBits 0x43E0000000000000) =
        .finite false ⟨0x10000000000000, 11, true⟩ := by rfl
    rw [Decimal.rational?_of_finite hparts]
    norm_num [Decimal.Magnitude.rational]
  have hwhole : towardZero (2 ^ 63) = 2 ^ 63 := by norm_num [towardZero]
  have hlarge : ¬ Fits (2 ^ 63) := by
    rw [Fits]
    omega
  refine ⟨⟨⟨by decide, by decide, by decide⟩, ⟨by decide, by decide⟩, ?_⟩,
    hnumber, hwhole, hlarge, ?_⟩
  · have hrules := arithmeticRules_evaluate (yields_int unbound Int64.minValue .empty)
      (yields_int unbound (-1) _)
    exact hrules.refused (by decide) (by decide)
  · have hrules := conversionRules_evaluate (run_float (Float.ofBits 0x43E0000000000000) .empty)
      (Heap.read_alloc_self _ _)
    have hreturns := hrules.clamped _ hnumber
    rw [hwhole, if_neg (by norm_num)] at hreturns
    exact hreturns hlarge

end Eval
end LiveProbe
