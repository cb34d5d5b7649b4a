import LiveProbe.Proofs.Expr.Grammar
import LiveProbe.Proofs.Expr.Reading

/-!
# Phrases are read as derived

What the parser makes of the tokens of a phrase, whatever follows them.

**Continuations.**  The next token is taken into a phrase that is looser than the token
(`TokenKind.grip`).  In front of a token that grips less than the signs of a chain, the
chain is complete; in front of its own signs it goes on from the tree so far.

**Invariant.**  Reading a derived phrase at some depth needs exactly the levels of the
derivation and gives its tree at the same depth (`Phrase.Reads`).  Chains, suffixes and
comparisons are left open at the right end, so that one more link extends the statement
about the links before.

**Results.**
* `Derivation.reads`: the invariant holds of all derivations.
* `parseKinds_of_derivation`: a derived list of tokens is parsed to its tree, or needs too
  many levels.
-/

namespace LiveProbe

open LiveProbe.Parser

/-! ### Continuations -/

/-- How tightly a token holds on to what stands before it. -/
def TokenKind.grip : TokenKind → Nat
  | .keyword .or => 1
  | .keyword .and => 2
  | .keyword .not => 3
  | .keyword .mem => 3
  | .keyword .same => 3
  | .symbol .eq => 3
  | .symbol .ne => 3
  | .symbol .lt => 3
  | .symbol .le => 3
  | .symbol .gt => 3
  | .symbol .ge => 3
  | .symbol .plus => 4
  | .symbol .minus => 4
  | .symbol .star => 5
  | .symbol .slash => 5
  | .symbol .percent => 5
  | .symbol .dot => 6
  | .symbol .leftBracket => 6
  | .symbol .leftParen => 6
  | _ => 0

/-- The grip of what stands first. -/
def grip : List TokenKind → Nat
  | [] => 0
  | t :: _ => t.grip

/-- The grip of the signs of a chain. -/
def Parser.Chain.grip : Parser.Chain → Nat
  | .or => 1
  | .and => 2
  | .sum => 4
  | .product => 5

theorem Parser.Chain.grip_of_join?
    {k : Parser.Chain} {t : TokenKind} {join : Expr → Expr → Expr}
    (h : k.join? t = some join) :
    t.grip = k.grip := by
  unfold Chain.join? at h
  split at h <;> first | rfl | cases h

theorem CompareOp.grip_words
    (op : CompareOp) (ts : List TokenKind) :
    LiveProbe.grip (op.words ++ ts) = 3 := by
  cases op <;> rfl

/-- The operator `is` must not be followed by what would make it another operator. -/
theorem comparison?_words
    (op : CompareOp)
    {t : TokenKind}
    (ts : List TokenKind)
    (ht : t.lead ≤ 1) :
    comparison? (op.words ++ t :: ts) = some (op, t :: ts) := by
  cases op with
  | same =>
      cases t with
      | keyword word => cases word <;> first | rfl | (simp [TokenKind.lead] at ht)
      | _ => rfl
  | _ => rfl

section Stops

variable {rest : List TokenKind} {e : Expr} {d : Nat}

theorem readLinks_stop
    {k : Chain}
    (h : grip rest < k.grip) :
    readLinks k e d rest = .ok ⟨e, d, rest⟩ := by
  cases rest with
  | nil => exact readLinks_nil k e d
  | cons t ts =>
      rw [readLinks_cons]
      split
      · rfl
      · next hjoin => exact (Nat.ne_of_lt h (Chain.grip_of_join? hjoin)).elim

theorem comparison?_stop
    (h : grip rest < 3) :
    comparison? rest = none := by
  unfold comparison?
  split <;> first | rfl | simp [grip, TokenKind.grip] at h

/-- A comparison ends before what has a weaker grip. -/
theorem readCompared_stop
    {acc : List (CompareOp × Expr)}
    (h : grip rest < 3) :
    readCompared acc d rest = .ok ⟨acc.reverse, d, rest⟩ := by
  rw [readCompared_eq, comparison?_stop h]

theorem readSuffixes_stop
    (h : grip rest < 6) :
    readSuffixes e d rest = .ok ⟨e, d, rest⟩ := by
  rw [readSuffixes_eq]
  split <;> first | rfl | simp [grip, TokenKind.grip] at h

end Stops

/-! ### The invariant -/

/-- A sign that closes items. -/
def Symbol.Closes (sign : Symbol) : Prop := sign = .rightParen ∨ sign = .rightBracket

theorem Symbol.Closes.lead
    {sign : Symbol}
    (h : sign.Closes) :
    (TokenKind.symbol sign).lead = 3 := by
  rcases h with rfl | rfl <;> rfl

theorem Symbol.Closes.grip_lt
    {sign : Symbol}
    (h : sign.Closes)
    (rest : List TokenKind) :
    LiveProbe.grip (.symbol sign :: rest) < Chain.or.grip := by
  rcases h with rfl | rfl <;> exact Nat.zero_lt_one

/-- Reading the tokens of a phrase needs the levels and gives the tree. -/
def Phrase.Reads (p : Phrase) (ts : List TokenKind) (e : Expr) (levels links : Nat) : Prop :=
  match p with
  | .chain k =>
      ∀ (d : Nat) (rest : List TokenKind), d ≤ Limits.expressionDepth → grip rest ≤ k.grip →
        readChain k d (ts ++ rest) = within d levels (do
          let all ← readLinks k e (d + links) rest
          return ⟨all.value, d, all.rest⟩)
  | .negation =>
      ∀ (d : Nat) (rest : List TokenKind), d ≤ Limits.expressionDepth → grip rest < 3 →
        readNot d (ts ++ rest) = within d levels (.ok ⟨e, d, rest⟩)
  | .comparison =>
      ∀ (d : Nat) (rest : List TokenKind), d ≤ Limits.expressionDepth → grip rest < 3 →
        readComparison d (ts ++ rest) = within d levels (.ok ⟨e, d, rest⟩)
  | .linked =>
      ∃ first further, e = .compare first further ∧ further ≠ [] ∧
        ∀ (d : Nat) (rest : List TokenKind), d ≤ Limits.expressionDepth → grip rest ≤ 3 →
          readComparison d (ts ++ rest) = within d levels (do
            let all ← readCompared further.reverse d rest
            return ⟨compared first all.value, all.depth, all.rest⟩)
  | .signed =>
      ∀ (d : Nat) (rest : List TokenKind), d ≤ Limits.expressionDepth → grip rest < 6 →
        readSigned d (ts ++ rest) = within d levels (.ok ⟨e, d, rest⟩)
  | .suffixed =>
      ∀ (d : Nat) (rest : List TokenKind), d ≤ Limits.expressionDepth →
        readSuffixed d (ts ++ rest) = within d levels (do
          let all ← readSuffixes e (d + links) rest
          return ⟨all.value, d, all.rest⟩)
  | .primary =>
      ∀ (d : Nat) (rest : List TokenKind), d ≤ Limits.expressionDepth →
        readPrimary d (ts ++ rest) = within d levels (.ok ⟨e, d, rest⟩)
  | .items =>
      ∃ es, e = .list es ∧
        ∀ (sign : Symbol) (d : Nat) (rest : List TokenKind),
          sign.Closes → d ≤ Limits.expressionDepth →
          readItems sign d (ts ++ .symbol sign :: rest) =
            within d levels (.ok ⟨es, d, rest⟩)
  | .listed =>
      ∃ es, e = .list es ∧
        ∀ (sign : Symbol) (acc : List Expr) (d : Nat) (rest : List TokenKind),
          sign.Closes → d ≤ Limits.expressionDepth →
          readMore sign acc d (ts ++ .symbol sign :: rest) =
            within d levels (.ok ⟨acc.reverse ++ es, d, rest⟩)

namespace Phrase

variable {ts rest : List TokenKind} {e : Expr} {d levels links : Nat}

/-- In front of a looser sign a chain is complete. -/
theorem Reads.chain_closed
    {k : Chain}
    (h : (Phrase.chain k).Reads ts e levels links)
    (hd : d ≤ Limits.expressionDepth)
    (hrest : LiveProbe.grip rest < k.grip) :
    readChain k d (ts ++ rest) = within d levels (.ok ⟨e, d, rest⟩) := by
  rw [h d rest hd (Nat.le_of_lt hrest), readLinks_stop hrest]
  rfl

/-- In front of a sign of its chain an operand is complete. -/
theorem Reads.operand_closed
    {k : Chain}
    (h : k.operand.Reads ts e levels links)
    (hd : d ≤ Limits.expressionDepth)
    (hrest : LiveProbe.grip rest ≤ k.grip) :
    readOperand k d (ts ++ rest) = within d levels (.ok ⟨e, d, rest⟩) := by
  rw [readOperand_eq]
  cases k with
  | or => exact Reads.chain_closed h hd (Nat.lt_succ_of_le hrest)
  | and => exact h d rest hd (Nat.lt_succ_of_le hrest)
  | sum => exact Reads.chain_closed h hd (Nat.lt_succ_of_le hrest)
  | product => exact h d rest hd (Nat.lt_succ_of_le hrest)

end Phrase

/-! ### One case for each constructor -/

namespace Phrase

variable {ts us : List TokenKind} {e l r : Expr} {m n links others : Nat}

theorem Reads.operand
    {k : Chain}
    (h : k.operand.Reads ts e m links) :
    (Phrase.chain k).Reads ts e m 0 := by
  intro d rest hd hrest
  rw [readChain_eq, h.operand_closed hd hrest, within_ok_bind]
  rfl

/-- One more operand takes a level more than the links before it. -/
theorem Reads.link
    {k : Chain} {op : TokenKind} {join : Expr → Expr → Expr}
    (hop : k.join? op = some join)
    (left : (Phrase.chain k).Reads ts l m links) (right : k.operand.Reads us r n others) :
    (Phrase.chain k).Reads (ts ++ op :: us) (join l r) (max m (links + 1 + n)) (links + 1) := by
  intro d rest hd hrest
  have hgrip : grip (op :: us ++ rest) ≤ k.grip := Nat.le_of_eq (Chain.grip_of_join? hop)
  rw [List.append_assoc, left d _ hd hgrip, List.cons_append, readLinks_cons, hop]
  refine within_link _ fun hfits => ?_
  rw [right.operand_closed hfits hrest, within_ok_bind]
  rfl

theorem Reads.not
    (h : Phrase.negation.Reads ts e m links) :
    Phrase.negation.Reads (.keyword .not :: ts) (.not e) (m + 1) 0 := by
  intro d rest hd hrest
  rw [List.cons_append, readNot_eq]
  refine within_one fun hfits => ?_
  rw [h _ rest hfits hrest, within_ok_bind]
  rfl

theorem Reads.positive
    (h : Phrase.comparison.Reads ts e m links)
    (hts : ∃ t us, ts = t :: us ∧ t.lead ≤ 1) :
    Phrase.negation.Reads ts e m 0 := by
  intro d rest hd hrest
  obtain ⟨t, us, rfl, ht⟩ := hts
  have hnot : t ≠ .keyword .not := by
    rintro rfl
    exact absurd ht (by decide)
  rw [readNot_eq]
  split
  · next heq => exact (hnot (List.cons.inj heq).1).elim
  · exact h d rest hd hrest

theorem Reads.sum
    (h : (Phrase.chain .sum).Reads ts e m links) :
    Phrase.comparison.Reads ts e m 0 := by
  intro d rest hd hrest
  rw [readComparison_eq, h.chain_closed hd (Nat.lt_succ_of_lt hrest), within_ok_bind,
    readCompared_stop hrest]
  rfl

theorem Reads.linked
    (h : Phrase.linked.Reads ts e m links) :
    Phrase.comparison.Reads ts e m 0 := by
  intro d rest hd hrest
  obtain ⟨first, further, rfl, hne, h⟩ := h
  rw [h d rest hd (Nat.le_of_lt hrest), readCompared_stop hrest, List.reverse_reverse]
  obtain ⟨link, further, rfl⟩ := List.exists_cons_of_ne_nil hne
  rfl

/-- One more link of a comparison. -/
theorem readCompared_link
    {op : CompareOp} {acc : List (CompareOp × Expr)} {d : Nat} {rest : List TokenKind}
    (right : (Phrase.chain .sum).Reads us r n others)
    (hus : ∃ t vs, us = t :: vs ∧ t.lead ≤ 1)
    (hd : d ≤ Limits.expressionDepth)
    (hrest : LiveProbe.grip rest ≤ 3) :
    readCompared acc d (op.words ++ us ++ rest) =
      within d n (readCompared ((op, r) :: acc) d rest) := by
  obtain ⟨t, vs, rfl, ht⟩ := hus
  rw [readCompared_eq, List.append_assoc, List.cons_append, comparison?_words op _ ht]
  exact (congrArg (· >>= _) (right.chain_closed hd (Nat.lt_succ_of_le hrest))).trans
    (within_ok_bind _ _ _ _)

theorem Reads.first
    {op : CompareOp}
    (left : (Phrase.chain .sum).Reads ts l m links)
    (right : (Phrase.chain .sum).Reads us r n others)
    (hus : ∃ t vs, us = t :: vs ∧ t.lead ≤ 1) :
    Phrase.linked.Reads (ts ++ op.words ++ us) (.compare l [(op, r)]) (max m n) 0 := by
  refine ⟨l, [(op, r)], rfl, by simp, ?_⟩
  intro d rest hd hrest
  have hgrip : LiveProbe.grip (op.words ++ us ++ rest) < Chain.sum.grip := by
    rw [List.append_assoc, CompareOp.grip_words]
    decide
  rw [List.append_assoc ts, List.append_assoc ts, readComparison_eq, left.chain_closed hd hgrip,
    within_ok_bind]
  dsimp only
  rw [readCompared_link right hus hd hrest, within_bind, within_within]
  rfl

/-- One more operand of a comparison takes no level. -/
theorem Reads.further
    {op : CompareOp} {further : List (CompareOp × Expr)}
    (left : Phrase.linked.Reads ts (.compare l further) m links)
    (right : (Phrase.chain .sum).Reads us r n others)
    (hus : ∃ t vs, us = t :: vs ∧ t.lead ≤ 1) :
    Phrase.linked.Reads (ts ++ op.words ++ us) (.compare l (further ++ [(op, r)])) (max m n) 0 := by
  obtain ⟨first, before, heq, -, left⟩ := left
  cases heq
  refine ⟨l, further ++ [(op, r)], rfl, by simp, ?_⟩
  intro d rest hd hrest
  have hgrip : LiveProbe.grip (op.words ++ us ++ rest) = 3 := by
    rw [List.append_assoc, CompareOp.grip_words]
  rw [List.append_assoc ts, List.append_assoc ts, left d _ hd (Nat.le_of_eq hgrip),
    readCompared_link right hus hd hrest, within_bind, within_within, List.reverse_append]
  rfl

theorem Reads.minus
    (h : Phrase.signed.Reads ts e m links) :
    Phrase.signed.Reads (.symbol .minus :: ts) (negated e) (m + 1) 0 := by
  intro d rest hd hrest
  rw [List.cons_append, readSigned_eq]
  refine within_one fun hfits => ?_
  rw [h _ rest hfits hrest, within_ok_bind]
  rfl

theorem Reads.plus
    (h : Phrase.signed.Reads ts e m links) :
    Phrase.signed.Reads (.symbol .plus :: ts) e (m + 1) 0 := by
  intro d rest hd hrest
  rw [List.cons_append, readSigned_eq]
  refine within_one fun hfits => ?_
  rw [h _ rest hfits hrest, within_ok_bind]
  rfl

theorem Reads.unsigned
    (h : Phrase.suffixed.Reads ts e m links)
    (hts : ∃ t us, ts = t :: us ∧ t.lead ≤ 0) :
    Phrase.signed.Reads ts e m 0 := by
  intro d rest hd hrest
  obtain ⟨t, us, rfl, ht⟩ := hts
  have hminus : t ≠ .symbol .minus := by
    rintro rfl
    exact absurd ht (by decide)
  have hplus : t ≠ .symbol .plus := by
    rintro rfl
    exact absurd ht (by decide)
  rw [readSigned_eq]
  split
  · next heq => exact (hminus (List.cons.inj heq).1).elim
  · next heq => exact (hplus (List.cons.inj heq).1).elim
  · rw [h d rest hd, readSuffixes_stop hrest]
    rfl

theorem Reads.unsuffixed
    (h : Phrase.primary.Reads ts e m links) :
    Phrase.suffixed.Reads ts e m 0 := by
  intro d rest hd
  rw [readSuffixed_eq, h d rest hd, within_ok_bind]
  rfl

theorem Reads.field
    {name : String}
    (h : Phrase.suffixed.Reads ts e m links) :
    Phrase.suffixed.Reads (ts ++ [.symbol .dot, .ident name]) (.field e name)
      (max m (links + 1)) (links + 1) := by
  intro d rest hd
  rw [List.append_assoc, h d _ hd, readSuffixes_eq]
  exact within_link _ fun hfits => (within_zero hfits _).symm

/-- An index takes a level more than the suffixes before it. -/
theorem Reads.index
    (target : Phrase.suffixed.Reads ts e m links) (key : (Phrase.chain .or).Reads us r n others) :
    Phrase.suffixed.Reads (ts ++ .symbol .leftBracket :: (us ++ [.symbol .rightBracket]))
      (.index e r) (max m (links + 1 + n)) (links + 1) := by
  intro d rest hd
  rw [List.append_assoc, target d _ hd, List.cons_append, List.append_assoc, readSuffixes_eq]
  refine within_link _ fun hfits => ?_
  rw [List.singleton_append, key.chain_closed hfits (Symbol.Closes.grip_lt (.inr rfl) rest),
    within_ok_bind]
  exact congrArg _ (readClose_self_bind _ _ _)

theorem Reads.call
    {function : String} {args : List Expr}
    (target : Phrase.suffixed.Reads ts (.name function) m links)
    (items : Phrase.items.Reads us (.list args) n others) :
    Phrase.suffixed.Reads (ts ++ .symbol .leftParen :: (us ++ [.symbol .rightParen]))
      (.call function args) (max m (links + 1 + n)) (links + 1) := by
  intro d rest hd
  obtain ⟨es, heq, items⟩ := items
  cases heq
  rw [List.append_assoc, target d _ hd, List.cons_append, List.append_assoc, readSuffixes_eq]
  refine within_link _ fun hfits => ?_
  rw [List.singleton_append, items .rightParen _ rest (.inl rfl) hfits, within_ok_bind]
  rfl

theorem Reads.atom
    {t : TokenKind}
    (ht : t.atom? = some e) :
    Phrase.primary.Reads [t] e 0 0 := by
  intro d rest hd
  rw [within_zero hd, readPrimary_eq]
  unfold TokenKind.atom? at ht
  split at ht <;> cases ht <;> rfl

theorem Reads.parens
    (h : (Phrase.chain .or).Reads ts e m links) :
    Phrase.primary.Reads (.symbol .leftParen :: (ts ++ [.symbol .rightParen])) e (m + 1) 0 := by
  intro d rest hd
  rw [List.cons_append, List.append_assoc, readPrimary_eq]
  refine within_one fun hfits => ?_
  rw [List.singleton_append, h.chain_closed hfits (Symbol.Closes.grip_lt (.inl rfl) rest),
    within_ok_bind]
  exact congrArg _ (readClose_self_bind _ _ _)

theorem Reads.list
    {es : List Expr}
    (h : Phrase.items.Reads ts (.list es) m links) :
    Phrase.primary.Reads (.symbol .leftBracket :: (ts ++ [.symbol .rightBracket])) (.list es)
      (m + 1) 0 := by
  intro d rest hd
  obtain ⟨_, heq, h⟩ := h
  cases heq
  rw [List.cons_append, List.append_assoc, readPrimary_eq]
  refine within_one fun hfits => ?_
  rw [List.singleton_append, h .rightBracket _ rest (.inr rfl) hfits, within_ok_bind]
  rfl

theorem Reads.nothing : Phrase.items.Reads [] (.list []) 0 0 := by
  refine ⟨[], rfl, ?_⟩
  intro sign d rest hsign hd
  rw [within_zero hd, List.nil_append, readItems_eq]
  exact if_pos rfl

theorem Reads.listed
    (h : Phrase.listed.Reads ts e m links)
    (hts : ∃ t us, ts = t :: us ∧ t.lead ≤ 2) :
    Phrase.items.Reads ts e m 0 := by
  obtain ⟨es, rfl, h⟩ := h
  refine ⟨es, rfl, ?_⟩
  intro sign d rest hsign hd
  obtain ⟨t, us, rfl, ht⟩ := hts
  have hmore := h sign [] d rest hsign hd
  rw [readItems_eq]
  split
  · next heq =>
      cases heq
      rw [if_neg]
      · exact hmore
      · rintro rfl
        rw [hsign.lead] at ht
        exact absurd ht (by decide)
  · exact hmore

theorem Reads.last
    (h : (Phrase.chain .or).Reads ts e m links) :
    Phrase.listed.Reads ts (.list [e]) m 0 := by
  refine ⟨[e], rfl, ?_⟩
  intro sign acc d rest hsign hd
  rw [readMore_eq, h.chain_closed hd (hsign.grip_lt rest), within_ok_bind, ← List.reverse_cons]
  rcases hsign with rfl | rfl <;> exact congrArg _ (readClose_self_bind _ _ _)

theorem Reads.lastComma
    (h : (Phrase.chain .or).Reads ts e m links) :
    Phrase.listed.Reads (ts ++ [.symbol .comma]) (.list [e]) m 0 := by
  refine ⟨[e], rfl, ?_⟩
  intro sign acc d rest hsign hd
  have hgrip : LiveProbe.grip (.symbol .comma :: .symbol sign :: rest) < Chain.or.grip :=
    Nat.zero_lt_one
  rw [List.append_assoc, List.singleton_append, readMore_eq, h.chain_closed hd hgrip,
    within_ok_bind, ← List.reverse_cons]
  exact congrArg _ (if_pos rfl)

/-- Items side by side take the larger of their levels. -/
theorem Reads.more
    {es : List Expr}
    (h : (Phrase.chain .or).Reads ts e m links)
    (others : Phrase.listed.Reads us (.list es) n others)
    (hus : ∃ t vs, us = t :: vs ∧ t.lead ≤ 2) :
    Phrase.listed.Reads (ts ++ .symbol .comma :: us) (.list (e :: es)) (max m n) 0 := by
  obtain ⟨_, heq, others⟩ := others
  cases heq
  refine ⟨e :: es, rfl, ?_⟩
  intro sign acc d rest hsign hd
  have hgrip : LiveProbe.grip (.symbol .comma :: (us ++ .symbol sign :: rest)) < Chain.or.grip :=
    Nat.zero_lt_one
  have hothers := others sign (e :: acc) d rest hsign hd
  rw [List.append_assoc, List.cons_append, readMore_eq, h.chain_closed hd hgrip,
    within_ok_bind, ← within_within]
  rw [List.reverse_cons, List.append_assoc, List.singleton_append] at hothers
  rw [← hothers]
  refine congrArg _ ?_
  obtain ⟨t, vs, rfl, ht⟩ := hus
  dsimp only [List.cons_append]
  split
  · next heq =>
      cases heq
      refine if_neg ?_
      rintro rfl
      rw [hsign.lead] at ht
      exact absurd ht (by decide)
  · next heq =>
      cases heq
      rfl
  · next hcomma => exact (hcomma _ rfl).elim

end Phrase

/-! ### All derivations -/

/-- What the grammar derives, the parser reads with the same levels, and nothing behind it. -/
theorem Derivation.reads
    {callable : List TokenKind → Prop} {p : Phrase} {ts : List TokenKind} {e : Expr}
    (D : Derivation callable p ts e) :
    p.Reads ts e D.levels D.links := by
  induction D with
  | operand _ ih => exact ih.operand
  | link hop heq _ _ ihl ihr =>
      subst heq
      exact Phrase.Reads.link hop ihl ihr
  | not _ ih => exact ih.not
  | positive d ih => exact ih.positive (d.exists_begins (by decide))
  | sum _ ih => exact ih.sum
  | linked _ ih => exact ih.linked
  | first _ right ihl ihr => exact ihl.first ihr (right.exists_begins (by decide))
  | further _ right ihl ihr => exact ihl.further ihr (right.exists_begins (by decide))
  | minus _ ih => exact ih.minus
  | plus _ ih => exact ih.plus
  | unsigned d ih => exact ih.unsigned (d.exists_begins (by decide))
  | unsuffixed _ ih => exact ih.unsuffixed
  | field _ ih => exact ih.field
  | index _ _ iht ihk => exact iht.index ihk
  | call _ _ _ iht ihi => exact iht.call ihi
  | atom h => exact Phrase.Reads.atom h
  | parens _ ih => exact ih.parens
  | list _ ih => exact ih.list
  | nothing => exact Phrase.Reads.nothing
  | listed d ih => exact ih.listed (d.exists_begins (by decide))
  | last _ ih => exact ih.last
  | lastComma _ ih => exact ih.lastComma
  | more _ others ih iho => exact ih.more iho (others.exists_begins (by decide))

/-- A derived list of tokens is parsed to its tree, if the levels suffice. -/
theorem parseKinds_of_derivation
    {callable : List TokenKind → Prop} {kinds : List TokenKind} {e : Expr}
    (D : Derivation callable (.chain .or) kinds e) :
    parseKinds (kinds ++ [.eof]) = within 0 D.levels (.ok e) := by
  have hread : readChain .or 0 (kinds ++ [.eof]) = within 0 D.levels (.ok ⟨e, 0, [.eof]⟩) :=
    D.reads.chain_closed (Nat.zero_le _) Nat.zero_lt_one
  rw [parseKinds_eq, hread, within_ok_bind]
  rfl

end LiveProbe
