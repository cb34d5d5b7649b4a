import Mathlib.Data.List.Basic
import LiveProbe.Proofs.Expr.Grammar
import LiveProbe.Proofs.Expr.Reading

/-!
# What is read is a phrase

Every reading that succeeds has a derivation of the tokens that it took.

**Invariant.**  A reading returns to the depth at which it began, takes the tokens of a
phrase with its tree, and the levels of the derivation fit above that depth (`Derived`).
Further links and suffixes extend a phrase that is there already (`Extended`).

**Induction.**  All functions of the parser are sound on lists of fewer than `n` tokens
(`SoundBelow`).  On lists of `n` tokens each of them follows from the tighter ones and
from shorter lists, beginning with primaries.

**Callees.**  A reading knows of a callee no more than its tree, so the grammar is the
one in which any phrase with a name as tree may be called.

**Results.**
* `soundBelow`: soundness on lists of any length.
* `exists_derivation_of_parseKinds`: what is parsed is derived.
-/

namespace LiveProbe

open LiveProbe.Parser

/-- Any tokens. -/
def anyTokens : List TokenKind → Prop := fun _ => True

/-- The tokens taken make up a phrase, and no level is left entered. -/
def Derived (p : Phrase) (d : Nat) (ts : List TokenKind) (x : Read Expr) : Prop :=
  x.depth = d ∧ ∃ used, ts = used ++ x.rest ∧
    ∃ D : Derivation anyTokens p used x.value, d + D.levels ≤ Limits.expressionDepth

/-- The tokens taken make up a phrase together with those in front of them. -/
def Extended (p : Phrase) (before : List TokenKind) (d : Nat) (ts : List TokenKind)
    (x : Read Expr) : Prop :=
  ∃ used all, ts = used ++ x.rest ∧ all = before ++ used ∧
    ∃ D : Derivation anyTokens p all x.value, d + D.levels ≤ Limits.expressionDepth

theorem Extended.append
    {p : Phrase} {before new ts : List TokenKind} {d : Nat} {x : Read Expr}
    (h : Extended p (before ++ new) d ts x) :
    Extended p before d (new ++ ts) x := by
  obtain ⟨used, _, hts, rfl, D, hD⟩ := h
  refine ⟨new ++ used, _, ?_, ?_, D, hD⟩
  · rw [hts, List.append_assoc]
  · rw [List.append_assoc]

/-- Whatever is read off the tokens is derived. -/
def Sound (p : Phrase) (read : Nat → List TokenKind → Except EvalError (Read Expr))
    (ts : List TokenKind) : Prop :=
  ∀ (d : Nat) (x : Read Expr), d ≤ Limits.expressionDepth → read d ts = .ok x →
    Derived p d ts x

/-- Whatever items are read up to a closing sign are derived. -/
def SoundItems (ts : List TokenKind) : Prop :=
  ∀ (sign : Symbol) (d : Nat) (x : Read (List Expr)), d ≤ Limits.expressionDepth →
    readItems sign d ts = .ok x →
    x.depth = d ∧ ∃ used, ts = used ++ .symbol sign :: x.rest ∧
      ∃ D : Derivation anyTokens .items used (.list x.value),
        d + D.levels ≤ Limits.expressionDepth

/-- All functions are sound on fewer than so many tokens. -/
structure SoundBelow (n : Nat) : Prop where
  chain : ∀ (k : Chain) (ts : List TokenKind), ts.length < n → Sound (.chain k) (readChain k) ts
  negation : ∀ ts : List TokenKind, ts.length < n → Sound .negation readNot ts
  signed : ∀ ts : List TokenKind, ts.length < n → Sound .signed readSigned ts
  items : ∀ ts : List TokenKind, ts.length < n → SoundItems ts

/-- Soundness up to a length holds up to smaller ones. -/
theorem SoundBelow.mono
    {m n : Nat}
    (h : SoundBelow n)
    (hm : m ≤ n) :
    SoundBelow m where
  chain k ts hts := h.chain k ts (Nat.lt_of_lt_of_le hts hm)
  negation ts hts := h.negation ts (Nat.lt_of_lt_of_le hts hm)
  signed ts hts := h.signed ts (Nat.lt_of_lt_of_le hts hm)
  items ts hts := h.items ts (Nat.lt_of_lt_of_le hts hm)

theorem SoundBelow.operand
    {n : Nat}
    (h : SoundBelow n)
    (k : Chain) (ts : List TokenKind)
    (hts : ts.length < n) :
    Sound k.operand (readOperand k) ts := by
  intro d x hd hx
  rw [readOperand_eq] at hx
  cases k with
  | or => exact h.chain .and ts hts d x hd hx
  | and => exact h.negation ts hts d x hd hx
  | sum => exact h.chain .product ts hts d x hd hx
  | product => exact h.signed ts hts d x hd hx

/-! ### Chains -/

theorem length_behind_lt
    (t : TokenKind) (used rest : List TokenKind) :
    rest.length < (t :: (used ++ rest)).length := by
  rw [List.length_cons, List.length_append]
  omega

section Chains

variable {k : Chain} {ts : List TokenKind} {d : Nat} {x : Read Expr}

/-- The links of a chain extend the derivation of its left side. -/
theorem links_extended
    (h : ∀ us : List TokenKind, us.length < ts.length → Sound k.operand (readOperand k) us)
    {before : List TokenKind} {left : Expr}
    (L : Derivation anyTokens (.chain k) before left) (hL : d + L.levels ≤ Limits.expressionDepth)
    (hx : readLinks k left (d + L.links) ts = .ok x) :
    Extended (.chain k) before d ts x := by
  induction hl : ts.length using Nat.strongRecOn generalizing ts before left with
  | ind l ih =>
      subst hl
      cases ts with
      | nil =>
          rw [readLinks_nil] at hx
          cases hx
          exact ⟨[], before, rfl, (List.append_nil _).symm, L, hL⟩
      | cons t us =>
          rw [readLinks_cons] at hx
          split at hx
          · cases hx
            exact ⟨[], before, rfl, (List.append_nil _).symm, L, hL⟩
          · next join hjoin =>
              obtain ⟨hfits, hbody⟩ := within_eq_ok hx
              obtain ⟨right, hright, htail⟩ := bind_eq_ok hbody
              obtain ⟨hdepth, used, rfl, R, hR⟩ :=
                h us (Nat.lt_succ_self _) _ right hfits hright
              let D : Derivation anyTokens (.chain k) (before ++ t :: used) _ :=
                .link hjoin rfl L R
              have hD : d + D.levels ≤ Limits.expressionDepth := by
                show d + max L.levels (L.links + 1 + R.levels) ≤ _
                omega
              rw [hdepth] at htail
              have hshort := length_behind_lt t used right.rest
              have hlater := ih right.rest.length hshort
                (fun vs hvs => h vs (Nat.lt_trans hvs hshort)) D hD htail rfl
              exact hlater.append

theorem chain_derived
    (hoperand : Sound k.operand (readOperand k) ts)
    (h : ∀ us : List TokenKind, us.length < ts.length → Sound k.operand (readOperand k) us) :
    Sound (.chain k) (readChain k) ts := by
  intro d x hd hx
  rw [readChain_eq] at hx
  obtain ⟨first, hfirst, hx⟩ := bind_eq_ok hx
  obtain ⟨all, hall, hx⟩ := bind_eq_ok hx
  cases hx
  obtain ⟨hdepth, used, rfl, D, hD⟩ := hoperand d first hd hfirst
  rw [hdepth] at hall
  have hshort : first.rest.length ≤ (used ++ first.rest).length := by
    rw [List.length_append]
    omega
  obtain ⟨more, _, hrest, rfl, D', hD'⟩ :=
    links_extended (fun us hus => h us (Nat.lt_of_lt_of_le hus hshort)) (.operand D) hD hall
  exact ⟨rfl, used ++ more, by rw [hrest, List.append_assoc], D', hD'⟩

end Chains

/-! ### Primaries and suffixes -/

section Suffixes

variable {ts : List TokenKind} {d : Nat} {x : Read Expr}

theorem readClose_eq_ok
    {sign : Symbol} {us : List TokenKind}
    (h : readClose sign ts = .ok us) :
    ts = .symbol sign :: us := by
  unfold readClose close at h
  split at h
  · split at h
    · next hsign =>
        cases h
        rw [hsign]
    · cases h
  · cases h

theorem primary_derived
    (h : SoundBelow ts.length) :
    Sound .primary readPrimary ts := by
  intro d x hd hx
  rw [readPrimary_eq] at hx
  have hatom {t : TokenKind} {us : List TokenKind} {e : Expr} (ht : t.atom? = some e) :
      Derived .primary d (t :: us) ⟨e, d, us⟩ :=
    ⟨rfl, [t], rfl, .atom ht, hd⟩
  split at hx
  case h_8 us =>
    obtain ⟨hfits, hbody⟩ := within_eq_ok hx
    obtain ⟨inner, hinner, htail⟩ := bind_eq_ok hbody
    obtain ⟨rest, hclose, hvalue⟩ := bind_eq_ok htail
    cases hvalue
    obtain ⟨hdepth, used, hused, D, hD⟩ :=
      h.chain .or us (Nat.lt_succ_self _) _ inner hfits hinner
    refine ⟨by simp [hdepth], .symbol .leftParen :: (used ++ [.symbol .rightParen]),
      ?_, .parens D, ?_⟩
    · simp [hused, readClose_eq_ok hclose]
    · show d + (D.levels + 1) ≤ _
      omega
  case h_9 us =>
    obtain ⟨hfits, hbody⟩ := within_eq_ok hx
    obtain ⟨items, hitems, hvalue⟩ := bind_eq_ok hbody
    cases hvalue
    obtain ⟨hdepth, used, hused, D, hD⟩ :=
      h.items us (Nat.lt_succ_self _) _ _ items hfits hitems
    refine ⟨by simp [hdepth], .symbol .leftBracket :: (used ++ [.symbol .rightBracket]),
      ?_, .list D, ?_⟩
    · simp [hused]
    · show d + (D.levels + 1) ≤ _
      omega
  case h_10 => cases hx
  all_goals
    cases hx
    exact hatom rfl

/-- Suffixes extend the derivation of what they follow. -/
theorem suffixes_extended
    (h : SoundBelow ts.length)
    {before : List TokenKind} {target : Expr}
    (T : Derivation anyTokens .suffixed before target) (hT : d + T.levels ≤ Limits.expressionDepth)
    (hx : readSuffixes target (d + T.links) ts = .ok x) :
    Extended .suffixed before d ts x := by
  induction hl : ts.length using Nat.strongRecOn generalizing ts before target with
  | ind l ih =>
      subst hl
      rw [readSuffixes_eq] at hx
      split at hx
      · next us =>
          obtain ⟨hfits, hbody⟩ := within_eq_ok hx
          split at hbody
          · next name vs =>
              let D : Derivation anyTokens .suffixed
                  (before ++ [.symbol .dot, .ident name]) (.field target name) :=
                .field T
              have hD : d + D.levels ≤ Limits.expressionDepth := by
                show d + max T.levels (T.links + 1) ≤ _
                omega
              have hshort := length_behind_lt (.symbol .dot) [.ident name] vs
              have hlater := ih vs.length hshort (h.mono (Nat.le_of_lt hshort)) D hD hbody rfl
              exact hlater.append
          · cases hbody
      · next us =>
          obtain ⟨hfits, hbody⟩ := within_eq_ok hx
          obtain ⟨key, hkey, hclosing⟩ := bind_eq_ok hbody
          obtain ⟨rest, hclose, htail⟩ := bind_eq_ok hclosing
          obtain ⟨hdepth, used, hused, K, hK⟩ :=
            h.chain .or us (Nat.lt_succ_self _) _ key hfits hkey
          have hus : us = used ++ [.symbol .rightBracket] ++ rest := by
            rw [hused, readClose_eq_ok hclose, List.append_assoc]
            rfl
          let D : Derivation anyTokens .suffixed
              (before ++ .symbol .leftBracket :: (used ++ [.symbol .rightBracket]))
              (.index target key.value) :=
            .index T K
          have hD : d + D.levels ≤ Limits.expressionDepth := by
            show d + max T.levels (T.links + 1 + K.levels) ≤ _
            omega
          rw [hdepth] at htail
          subst hus
          have hshort :=
            length_behind_lt (.symbol .leftBracket) (used ++ [.symbol .rightBracket]) rest
          have hlater := ih rest.length hshort (h.mono (Nat.le_of_lt hshort)) D hD htail rfl
          exact hlater.append
      · next us =>
          split at hx
          · next function =>
              obtain ⟨hfits, hbody⟩ := within_eq_ok hx
              obtain ⟨args, hargs, htail⟩ := bind_eq_ok hbody
              obtain ⟨hdepth, used, hused, A, hA⟩ :=
                h.items us (Nat.lt_succ_self _) _ _ args hfits hargs
              have hus : us = used ++ [.symbol .rightParen] ++ args.rest := by
                rw [hused, List.append_assoc]
                rfl
              let D : Derivation anyTokens .suffixed
                  (before ++ .symbol .leftParen :: (used ++ [.symbol .rightParen]))
                  (.call function args.value) :=
                .call T trivial A
              have hD : d + D.levels ≤ Limits.expressionDepth := by
                show d + max T.levels (T.links + 1 + A.levels) ≤ _
                omega
              rw [hdepth] at htail
              subst hus
              have hshort :=
                length_behind_lt (.symbol .leftParen) (used ++ [.symbol .rightParen]) args.rest
              have hlater := ih args.rest.length hshort (h.mono (Nat.le_of_lt hshort)) D hD
                htail rfl
              exact hlater.append
          · cases hx
      · cases hx
        exact ⟨[], before, rfl, (List.append_nil _).symm, T, hT⟩

theorem suffixed_derived
    (h : SoundBelow ts.length) :
    Sound .suffixed readSuffixed ts := by
  intro d x hd hx
  rw [readSuffixed_eq] at hx
  obtain ⟨first, hfirst, htail⟩ := bind_eq_ok hx
  obtain ⟨all, hall, hvalue⟩ := bind_eq_ok htail
  cases hvalue
  obtain ⟨hdepth, used, rfl, D, hD⟩ := primary_derived h d first hd hfirst
  rw [hdepth] at hall
  obtain ⟨more, _, hrest, rfl, D', hD'⟩ :=
    suffixes_extended (h.mono (by simp)) (.unsuffixed D) hD hall
  exact ⟨rfl, used ++ more, by rw [hrest, List.append_assoc], D', hD'⟩

end Suffixes

/-! ### Signs, comparisons and negations -/

section Prefixes

variable {ts : List TokenKind}

theorem signed_derived
    (h : SoundBelow ts.length) :
    Sound .signed readSigned ts := by
  intro d x hd hx
  rw [readSigned_eq] at hx
  split at hx
  · next us =>
      obtain ⟨hfits, hbody⟩ := within_eq_ok hx
      obtain ⟨inner, hinner, hvalue⟩ := bind_eq_ok hbody
      cases hvalue
      obtain ⟨hdepth, used, rfl, D, hD⟩ := h.signed us (Nat.lt_succ_self _) _ inner hfits hinner
      refine ⟨by simp [hdepth], .symbol .minus :: used, rfl, .minus D, ?_⟩
      show d + (D.levels + 1) ≤ _
      omega
  · next us =>
      obtain ⟨hfits, hbody⟩ := within_eq_ok hx
      obtain ⟨inner, hinner, hvalue⟩ := bind_eq_ok hbody
      cases hvalue
      obtain ⟨hdepth, used, rfl, D, hD⟩ := h.signed us (Nat.lt_succ_self _) _ inner hfits hinner
      refine ⟨by simp [hdepth], .symbol .plus :: used, rfl, .plus D, ?_⟩
      show d + (D.levels + 1) ≤ _
      omega
  · obtain ⟨hdepth, used, rfl, D, hD⟩ := suffixed_derived h d x hd hx
    exact ⟨hdepth, used, rfl, .unsigned D, hD⟩

/-- An operator of comparison is read by its words. -/
theorem comparison?_eq_some
    {op : CompareOp} {rest : List TokenKind}
    (h : comparison? ts = some (op, rest)) :
    ts = op.words ++ rest := by
  unfold comparison? at h
  split at h <;> cases h <;> rfl

theorem Derivation.further_ne_nil
    {callable : List TokenKind → Prop} {first : Expr} {links : List (CompareOp × Expr)}
    (D : Derivation callable .linked ts (.compare first links)) :
    links ≠ [] := by
  cases D <;> simp

theorem compared_extended
    (h : ∀ us : List TokenKind, us.length < ts.length → Sound (.chain .sum) (readChain .sum) us)
    {before : List TokenKind} {first : Expr} {acc links : List (CompareOp × Expr)} {d : Nat}
    {x : Read (List (CompareOp × Expr))}
    (hacc : acc.reverse = links)
    (L : Derivation anyTokens .linked before (.compare first links))
    (hL : d + L.levels ≤ Limits.expressionDepth)
    (hx : readCompared acc d ts = .ok x) :
    x.depth = d ∧ Extended .linked before d ts ⟨.compare first x.value, x.depth, x.rest⟩ := by
  induction hl : ts.length using Nat.strongRecOn generalizing ts before acc links with
  | ind l ih =>
      subst hl
      rw [readCompared_eq] at hx
      split at hx
      · cases hx
        subst hacc
        exact ⟨rfl, [], before, rfl, (List.append_nil _).symm, L, hL⟩
      · next op us hop =>
          obtain ⟨right, hright, htail⟩ := bind_eq_ok hx
          obtain rfl := comparison?_eq_some hop
          have hus := comparison?_length hop
          obtain ⟨hdepth, used, rfl, R, hR⟩ := h us hus d right (by omega) hright
          let D : Derivation anyTokens .linked (before ++ op.words ++ used)
              (.compare first (links ++ [(op, right.value)])) :=
            .further L R
          have hD : d + D.levels ≤ Limits.expressionDepth := by
            show d + max L.levels R.levels ≤ _
            omega
          have hacc' : ((op, right.value) :: acc).reverse = links ++ [(op, right.value)] := by
            rw [List.reverse_cons, hacc]
          rw [hdepth] at htail
          rw [List.length_append] at hus
          obtain ⟨hlast, hlater⟩ := ih right.rest.length (by omega)
            (fun vs hvs => h vs (by omega)) hacc' D hD htail rfl
          rw [List.append_assoc before] at hlater
          refine ⟨hlast, ?_⟩
          rw [← List.append_assoc]
          exact hlater.append

theorem comparison_derived
    (hsum : Sound (.chain .sum) (readChain .sum) ts)
    (h : ∀ us : List TokenKind, us.length < ts.length → Sound (.chain .sum) (readChain .sum) us) :
    Sound .comparison readComparison ts := by
  intro d x hd hx
  rw [readComparison_eq] at hx
  obtain ⟨first, hfirst, htail⟩ := bind_eq_ok hx
  obtain ⟨links, hlinks, hvalue⟩ := bind_eq_ok htail
  cases hvalue
  obtain ⟨hdepth, used, rfl, D, hD⟩ := hsum d first hd hfirst
  rw [hdepth, readCompared_eq] at hlinks
  split at hlinks
  · cases hlinks
    exact ⟨rfl, used, rfl, .sum D, hD⟩
  · next op us hop =>
      obtain ⟨right, hright, hrest⟩ := bind_eq_ok hlinks
      have hus := comparison?_length hop
      obtain hsplit := comparison?_eq_some hop
      obtain ⟨hdepth', used', rfl, R, hR⟩ :=
        h us (by rw [List.length_append]; omega) d right hd hright
      let L : Derivation anyTokens .linked (used ++ op.words ++ used')
          (.compare first.value [(op, right.value)]) :=
        .first D R
      have hL : d + L.levels ≤ Limits.expressionDepth := by
        show d + max D.levels R.levels ≤ _
        omega
      rw [hdepth'] at hrest
      rw [List.length_append] at hus
      obtain ⟨hlast, more, _, hmore, rfl, D', hD'⟩ :=
        compared_extended (fun vs hvs => h vs (by rw [List.length_append]; omega)) rfl L hL hrest
      obtain ⟨link, further, hfurther⟩ := List.exists_cons_of_ne_nil D'.further_ne_nil
      refine ⟨hlast, used ++ op.words ++ used' ++ more, ?_, ?_⟩
      · rw [hsplit, hmore]
        simp only [List.append_assoc]
      · show ∃ D : Derivation anyTokens .comparison _ (compared first.value links.value), _
        have hnode : compared first.value links.value = .compare first.value links.value := by
          rw [hfurther]
          rfl
        rw [hnode]
        exact ⟨.linked D', hD'⟩

theorem negation_derived
    (hcomparison : Sound .comparison readComparison ts)
    (h : SoundBelow ts.length) :
    Sound .negation readNot ts := by
  intro d x hd hx
  rw [readNot_eq] at hx
  split at hx
  · next us =>
      obtain ⟨hfits, hbody⟩ := within_eq_ok hx
      obtain ⟨inner, hinner, hvalue⟩ := bind_eq_ok hbody
      cases hvalue
      obtain ⟨hdepth, used, rfl, D, hD⟩ := h.negation us (Nat.lt_succ_self _) _ inner hfits hinner
      refine ⟨by simp [hdepth], .keyword .not :: used, rfl, .not D, ?_⟩
      show d + (D.levels + 1) ≤ _
      omega
  · obtain ⟨hdepth, used, rfl, D, hD⟩ := hcomparison d x hd hx
    exact ⟨hdepth, used, rfl, .positive D, hD⟩

end Prefixes

/-! ### Items -/

section Items

variable {ts : List TokenKind}

/-- Items behind the first one are derived, up to the closing sign. -/
theorem more_derived
    (h : ∀ us : List TokenKind, us.length ≤ ts.length → Sound (.chain .or) (readChain .or) us)
    {sign : Symbol} {acc : List Expr} {d : Nat} {x : Read (List Expr)}
    (hd : d ≤ Limits.expressionDepth)
    (hx : readMore sign acc d ts = .ok x) :
    x.depth = d ∧ ∃ used es, ts = used ++ .symbol sign :: x.rest ∧ x.value = acc.reverse ++ es ∧
      ∃ D : Derivation anyTokens .listed used (.list es),
        d + D.levels ≤ Limits.expressionDepth := by
  induction hl : ts.length using Nat.strongRecOn generalizing ts acc with
  | ind l ih =>
      subst hl
      rw [readMore_eq] at hx
      obtain ⟨item, hitem, htail⟩ := bind_eq_ok hx
      have hshorter : item.rest.length < ts.length := length_rest_lt hitem
      obtain ⟨hdepth, used, hused, D, hD⟩ := h ts (Nat.le_refl _) d item hd hitem
      rw [hdepth] at htail
      -- What follows a comma that is not the last one.
      have hmore {us : List TokenKind} (hrest : item.rest = .symbol .comma :: us)
          (hus : readMore sign (item.value :: acc) d us = .ok x) :
          x.depth = d ∧ ∃ used es, ts = used ++ .symbol sign :: x.rest ∧
            x.value = acc.reverse ++ es ∧
            ∃ D : Derivation anyTokens .listed used (.list es),
              d + D.levels ≤ Limits.expressionDepth := by
        rw [hrest, List.length_cons] at hshorter
        obtain ⟨hlast, used', es, rfl, hvalue, D', hD'⟩ := ih us.length (by omega)
          (fun vs hvs => h vs (by omega)) hus rfl
        refine ⟨hlast, used ++ .symbol .comma :: used', item.value :: es, ?_, ?_, .more D D', ?_⟩
        · rw [hused, hrest, List.append_assoc]
          rfl
        · rw [hvalue, List.reverse_cons, List.append_assoc]
          rfl
        · show d + max D.levels D'.levels ≤ _
          omega
      split at htail
      · next s us hrest =>
          split at htail
          · next hsign =>
              cases htail
              refine ⟨rfl, used ++ [.symbol .comma], [item.value], ?_, List.reverse_cons,
                .lastComma D, hD⟩
              rw [hused, hrest, hsign, List.append_assoc]
              rfl
          · exact hmore hrest htail
      · next us _ hrest => exact hmore hrest htail
      · obtain ⟨rest, hclose, hvalue⟩ := bind_eq_ok htail
        cases hvalue
        refine ⟨rfl, used, [item.value], ?_, List.reverse_cons, .last D, hD⟩
        rw [hused, readClose_eq_ok hclose]

theorem items_derived
    (h : ∀ us : List TokenKind, us.length ≤ ts.length → Sound (.chain .or) (readChain .or) us) :
    SoundItems ts := by
  intro sign d x hd hx
  -- At least one item.
  have hlisted (hmore : readMore sign [] d ts = .ok x) :
      x.depth = d ∧ ∃ used, ts = used ++ .symbol sign :: x.rest ∧
        ∃ D : Derivation anyTokens .items used (.list x.value),
          d + D.levels ≤ Limits.expressionDepth := by
    obtain ⟨hdepth, used, es, hts, hvalue, D, hD⟩ := more_derived h hd hmore
    obtain rfl : x.value = es := hvalue
    exact ⟨hdepth, used, hts, .listed D, hD⟩
  rw [readItems_eq] at hx
  split at hx
  · split at hx
    · next hsign =>
        cases hx
        rw [hsign]
        exact ⟨rfl, [], rfl, .nothing, hd⟩
    · exact hlisted hx
  · exact hlisted hx

end Items

/-! ### All functions -/

/-- At one length the kinds of phrases follow from one another, the tightest first. -/
theorem SoundBelow.soundAt
    {ts : List TokenKind}
    (h : SoundBelow ts.length) :
    Sound .negation readNot ts ∧ ∀ k : Chain, Sound (.chain k) (readChain k) ts := by
  have hchain (k : Chain) (read : Nat → List TokenKind → Except EvalError (Read Expr))
      (hread : ∀ d, readOperand k d ts = read d ts) (hsound : Sound k.operand read ts) :
      Sound (.chain k) (readChain k) ts :=
    chain_derived (fun d x hd hx => hsound d x hd (hread d ▸ hx)) (h.operand k)
  have hproduct := hchain .product readSigned (readOperand_eq .product · ts) (signed_derived h)
  have hsum := hchain .sum (readChain .product) (readOperand_eq .sum · ts) hproduct
  have hcomparison := comparison_derived hsum (h.chain .sum)
  have hnegation := negation_derived hcomparison h
  have hand := hchain .and readNot (readOperand_eq .and · ts) hnegation
  have hor := hchain .or (readChain .and) (readOperand_eq .or · ts) hand
  refine ⟨hnegation, ?_⟩
  rintro (_ | _ | _ | _)
  · exact hor
  · exact hand
  · exact hsum
  · exact hproduct

/-- All that is read from texts up to a length is derived, by induction on the length. -/
theorem soundBelow
    (n : Nat) :
    SoundBelow n := by
  induction n with
  | zero =>
      constructor <;> intros <;> omega
  | succ n ih =>
      have hat {ts : List TokenKind} (hts : ts.length < n + 1) : SoundBelow ts.length :=
        ih.mono (Nat.le_of_lt_succ hts)
      constructor
      · exact fun k ts hts => (hat hts).soundAt.2 k
      · exact fun ts hts => (hat hts).soundAt.1
      · exact fun ts hts => signed_derived (hat hts)
      · exact fun ts hts => items_derived fun us hus =>
          (hat (Nat.lt_of_le_of_lt hus hts)).soundAt.2 .or

theorem readChain_derived
    (k : Chain) (ts : List TokenKind) :
    Sound (.chain k) (readChain k) ts :=
  (soundBelow (ts.length + 1)).chain k ts (Nat.lt_succ_self _)

/-- What is parsed in front of the end is derived, and its levels fit. -/
theorem exists_derivation_of_parseKinds
    {kinds : List TokenKind} {e : Expr}
    (hkinds : .eof ∉ kinds)
    (he : parseKinds (kinds ++ [.eof]) = .ok e) :
    ∃ D : Derivation anyTokens (.chain .or) kinds e, D.levels ≤ Limits.expressionDepth := by
  rw [parseKinds_eq] at he
  obtain ⟨tree, htree, hend⟩ := bind_eq_ok he
  obtain ⟨-, used, hsplit, D, hD⟩ := readChain_derived .or _ 0 tree (Nat.zero_le _) htree
  have hused := D.eof_notMem
  split at hend
  · next hrest =>
      rw [hrest, List.append_nil] at hsplit
      rw [← hsplit] at hused
      exact absurd (by simp) hused
  · next rest hrest =>
      cases hend
      rw [hrest] at hsplit
      obtain ⟨rfl, -, -⟩ := 
        (List.append_cons_inj_of_notMem hkinds List.not_mem_nil).mp hsplit
      exact ⟨D, by omega⟩
  · cases hend

end LiveProbe
