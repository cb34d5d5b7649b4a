import LiveProbe.Expr.Parser

/-!
# Grammar of expressions

Which tokens make up which trees, said without the parser.

**Phrases.**  Chains join operands of the next tighter kind to the left.  A comparison is
a sum, or sums linked by comparisons into one flat node.  Signs stand in front of a
primary with its suffixes; a negated literal is a literal, and neither a plus sign nor
parentheses leave a node.  The items of a list or call are divided by commas, one of
which may stand behind the last.

**Calls.**  What may be called is a parameter of the grammar: some property of the tokens
in front of the parenthesis.  Their tree has to be a name in any case.

**Levels.**  A derivation needs levels of nesting: one for every negation, sign, pair of
parentheses and list around a phrase, and for every link of a chain and every suffix, of
which the later ones stand on top of those before.

**Results.**
* `Derivation.levels_le_length`: no more levels are needed than there are tokens.
* `Derivation.exists_begins`: what a phrase begins with tells neither a closing sign nor
  a sign of some looser phrase.
-/

namespace LiveProbe

/-- Kinds of phrases. -/
inductive Phrase
  | chain (k : Parser.Chain)
  | negation
  | comparison
  /-- A comparison with at least one link. -/
  | linked
  | signed
  | suffixed
  | primary
  | items
  /-- At least one item. -/
  | listed
  deriving DecidableEq

/-- The words of a comparison. -/
def CompareOp.words : CompareOp → List TokenKind
  | .eq => [.symbol .eq]
  | .ne => [.symbol .ne]
  | .lt => [.symbol .lt]
  | .le => [.symbol .le]
  | .gt => [.symbol .gt]
  | .ge => [.symbol .ge]
  | .mem => [.keyword .mem]
  | .notMem => [.keyword .not, .keyword .mem]
  | .same => [.keyword .same]
  | .notSame => [.keyword .same, .keyword .not]

/-- The tree of a token that is a literal or a name. -/
def TokenKind.atom? : TokenKind → Option Expr
  | .int value => some (.int value)
  | .float value => some (.float value)
  | .str value => some (.str value)
  | .keyword .none => some .none
  | .keyword .true => some (.bool true)
  | .keyword .false => some (.bool false)
  | .ident name => some (.name name)
  | _ => none

/-- What a chain joins. -/
def Parser.Chain.operand : Parser.Chain → Phrase
  | .or => .chain .and
  | .and => .negation
  | .sum => .chain .product
  | .product => .signed

/-- A phrase has some tokens and a tree; that of items is the list of them. -/
inductive Derivation (callable : List TokenKind → Prop) :
    Phrase → List TokenKind → Expr → Type
  | operand {k : Parser.Chain} {ts : List TokenKind} {e : Expr} :
      Derivation callable k.operand ts e →
      Derivation callable (.chain k) ts e
  | link {k : Parser.Chain} {op : TokenKind} {join : Expr → Expr → Expr}
      {ts us : List TokenKind} {l r e : Expr} :
      k.join? op = some join →
      join l r = e →
      Derivation callable (.chain k) ts l →
      Derivation callable k.operand us r →
      Derivation callable (.chain k) (ts ++ op :: us) e
  | not {ts : List TokenKind} {e : Expr} :
      Derivation callable .negation ts e →
      Derivation callable .negation (.keyword .not :: ts) (.not e)
  | positive {ts : List TokenKind} {e : Expr} :
      Derivation callable .comparison ts e →
      Derivation callable .negation ts e
  | sum {ts : List TokenKind} {e : Expr} :
      Derivation callable (.chain .sum) ts e →
      Derivation callable .comparison ts e
  | linked {ts : List TokenKind} {e : Expr} :
      Derivation callable .linked ts e →
      Derivation callable .comparison ts e
  | first {op : CompareOp} {ts us : List TokenKind} {l r : Expr} :
      Derivation callable (.chain .sum) ts l →
      Derivation callable (.chain .sum) us r →
      Derivation callable .linked (ts ++ op.words ++ us) (.compare l [(op, r)])
  | further {op : CompareOp} {ts us : List TokenKind} {l r : Expr}
      {links : List (CompareOp × Expr)} :
      Derivation callable .linked ts (.compare l links) →
      Derivation callable (.chain .sum) us r →
      Derivation callable .linked (ts ++ op.words ++ us) (.compare l (links ++ [(op, r)]))
  | minus {ts : List TokenKind} {e : Expr} :
      Derivation callable .signed ts e →
      Derivation callable .signed (.symbol .minus :: ts) (Parser.negated e)
  | plus {ts : List TokenKind} {e : Expr} :
      Derivation callable .signed ts e →
      Derivation callable .signed (.symbol .plus :: ts) e
  | unsigned {ts : List TokenKind} {e : Expr} :
      Derivation callable .suffixed ts e →
      Derivation callable .signed ts e
  | unsuffixed {ts : List TokenKind} {e : Expr} :
      Derivation callable .primary ts e →
      Derivation callable .suffixed ts e
  | field {ts : List TokenKind} {e : Expr} {name : String} :
      Derivation callable .suffixed ts e →
      Derivation callable .suffixed (ts ++ [.symbol .dot, .ident name]) (.field e name)
  | index {ts us : List TokenKind} {e key : Expr} :
      Derivation callable .suffixed ts e →
      Derivation callable (.chain .or) us key →
      Derivation callable .suffixed
        (ts ++ .symbol .leftBracket :: (us ++ [.symbol .rightBracket])) (.index e key)
  | call {ts us : List TokenKind} {function : String} {args : List Expr} :
      Derivation callable .suffixed ts (.name function) →
      callable ts →
      Derivation callable .items us (.list args) →
      Derivation callable .suffixed
        (ts ++ .symbol .leftParen :: (us ++ [.symbol .rightParen])) (.call function args)
  | atom {t : TokenKind} {e : Expr} :
      t.atom? = some e →
      Derivation callable .primary [t] e
  | parens {ts : List TokenKind} {e : Expr} :
      Derivation callable (.chain .or) ts e →
      Derivation callable .primary (.symbol .leftParen :: (ts ++ [.symbol .rightParen])) e
  | list {ts : List TokenKind} {es : List Expr} :
      Derivation callable .items ts (.list es) →
      Derivation callable .primary
        (.symbol .leftBracket :: (ts ++ [.symbol .rightBracket])) (.list es)
  | nothing :
      Derivation callable .items [] (.list [])
  | listed {ts : List TokenKind} {e : Expr} :
      Derivation callable .listed ts e →
      Derivation callable .items ts e
  | last {ts : List TokenKind} {e : Expr} :
      Derivation callable (.chain .or) ts e →
      Derivation callable .listed ts (.list [e])
  | lastComma {ts : List TokenKind} {e : Expr} :
      Derivation callable (.chain .or) ts e →
      Derivation callable .listed (ts ++ [.symbol .comma]) (.list [e])
  | more {ts us : List TokenKind} {e : Expr} {es : List Expr} :
      Derivation callable (.chain .or) ts e →
      Derivation callable .listed us (.list es) →
      Derivation callable .listed (ts ++ .symbol .comma :: us) (.list (e :: es))

/-- A name, in any number of parentheses. -/
inductive IsBareName : List TokenKind → Prop
  | name (name : String) : IsBareName [.ident name]
  | parens {ts : List TokenKind} :
      IsBareName ts →
      IsBareName (.symbol .leftParen :: (ts ++ [.symbol .rightParen]))

/-- The tokens make up a phrase with the tree. -/
def Derives (callable : List TokenKind → Prop) (p : Phrase) (ts : List TokenKind) (e : Expr) :
    Prop :=
  Nonempty (Derivation callable p ts e)

namespace Derivation

variable {callable : List TokenKind → Prop} {p : Phrase} {ts : List TokenKind} {e : Expr}

/-! ### Levels -/

/-- The links or suffixes of the phrase itself. -/
def links {p : Phrase} {ts : List TokenKind} {e : Expr} : Derivation callable p ts e → Nat
  | .link _ _ left _ => left.links + 1
  | .field target => target.links + 1
  | .index target _ => target.links + 1
  | .call target _ _ => target.links + 1
  | _ => 0

/-- The levels of nesting that reading the phrase takes. -/
def levels {p : Phrase} {ts : List TokenKind} {e : Expr} : Derivation callable p ts e → Nat
  | .operand d => d.levels
  | .link _ _ left right => max left.levels (left.links + 1 + right.levels)
  | .not d => d.levels + 1
  | .positive d => d.levels
  | .sum d => d.levels
  | .linked d => d.levels
  | .first left right => max left.levels right.levels
  | .further left right => max left.levels right.levels
  | .minus d => d.levels + 1
  | .plus d => d.levels + 1
  | .unsigned d => d.levels
  | .unsuffixed d => d.levels
  | .field target => max target.levels (target.links + 1)
  | .index target key => max target.levels (target.links + 1 + key.levels)
  | .call target _ args => max target.levels (target.links + 1 + args.levels)
  | .atom _ => 0
  | .parens d => d.levels + 1
  | .list d => d.levels + 1
  | .nothing => 0
  | .listed d => d.levels
  | .last d => d.levels
  | .lastComma d => d.levels
  | .more d rest => max d.levels rest.levels

theorem links_le_levels
    (d : Derivation callable p ts e) :
    d.links ≤ d.levels := by
  cases d <;> simp only [links, levels] <;> omega

theorem levels_le_length
    (d : Derivation callable p ts e) :
    d.levels ≤ ts.length := by
  induction d with
  | link _ _ left _ ihl ihr =>
      have := left.links_le_levels
      simp only [levels, List.length_append, List.length_cons]
      omega
  | field target ih =>
      have := target.links_le_levels
      simp only [levels, List.length_append, List.length_cons]
      omega
  | index target _ iht ihk =>
      have := target.links_le_levels
      simp only [levels, List.length_append, List.length_cons]
      omega
  | call target _ _ iht iha =>
      have := target.links_le_levels
      simp only [levels, List.length_append, List.length_cons]
      omega
  | _ =>
      simp only [levels, List.length_append, List.length_cons]
      omega

end Derivation

/-! ### First tokens -/

/-- How loose a phrase has to be to begin with the token. -/
def TokenKind.lead : TokenKind → Nat
  | .symbol .leftParen => 0
  | .symbol .leftBracket => 0
  | .symbol .plus => 1
  | .symbol .minus => 1
  | .symbol _ => 3
  | .keyword .not => 2
  | .keyword .and => 3
  | .keyword .or => 3
  | .keyword .mem => 3
  | .keyword .same => 3
  | .eof => 3
  | _ => 0

theorem TokenKind.lead_eq_zero_of_atom?
    {t : TokenKind} {e : Expr}
    (h : t.atom? = some e) :
    t.lead = 0 := by
  unfold TokenKind.atom? at h
  split at h <;> first | rfl | cases h

/-- The loosest of the tokens that a phrase begins with. -/
def Phrase.lead : Phrase → Nat
  | .primary => 0
  | .suffixed => 0
  | .signed => 1
  | .chain .product => 1
  | .chain .sum => 1
  | .comparison => 1
  | .linked => 1
  | .negation => 2
  | .chain .and => 2
  | .chain .or => 2
  | .listed => 2
  | .items => 3

theorem Parser.Chain.lead_operand_le
    (k : Parser.Chain) :
    k.operand.lead ≤ (Phrase.chain k).lead := by
  cases k <;> decide

namespace Derivation

/-- A phrase begins with a token that may begin it. -/
theorem exists_begins
    {callable : List TokenKind → Prop} {p : Phrase} {ts : List TokenKind} {e : Expr}
    (d : Derivation callable p ts e)
    (hp : p ≠ .items) :
    ∃ t us, ts = t :: us ∧ t.lead ≤ p.lead := by
  induction d with
  | @operand k _ _ _ ih =>
      obtain ⟨t, us, rfl, ht⟩ := ih (by cases k <;> decide)
      exact ⟨t, us, rfl, Nat.le_trans ht k.lead_operand_le⟩
  | link _ _ _ _ ih _ =>
      obtain ⟨t, us, rfl, ht⟩ := ih (by simp)
      exact ⟨t, _, rfl, ht⟩
  | not _ _ => exact ⟨_, _, rfl, by decide⟩
  | positive _ ih =>
      obtain ⟨t, us, rfl, ht⟩ := ih (by decide)
      exact ⟨t, us, rfl, Nat.le_trans ht (by decide)⟩
  | sum _ ih => exact ih (by decide)
  | linked _ ih => exact ih (by decide)
  | first _ _ ih _ =>
      obtain ⟨t, us, rfl, ht⟩ := ih (by decide)
      exact ⟨t, _, rfl, ht⟩
  | further _ _ ih _ =>
      obtain ⟨t, us, rfl, ht⟩ := ih (by decide)
      exact ⟨t, _, rfl, ht⟩
  | minus _ _ => exact ⟨_, _, rfl, by decide⟩
  | plus _ _ => exact ⟨_, _, rfl, by decide⟩
  | unsigned _ ih =>
      obtain ⟨t, us, rfl, ht⟩ := ih (by decide)
      exact ⟨t, us, rfl, Nat.le_trans ht (by decide)⟩
  | unsuffixed _ ih => exact ih (by decide)
  | field _ ih =>
      obtain ⟨t, us, rfl, ht⟩ := ih (by decide)
      exact ⟨t, _, rfl, ht⟩
  | index _ _ ih _ =>
      obtain ⟨t, us, rfl, ht⟩ := ih (by decide)
      exact ⟨t, _, rfl, ht⟩
  | call _ _ _ ih _ =>
      obtain ⟨t, us, rfl, ht⟩ := ih (by decide)
      exact ⟨t, _, rfl, ht⟩
  | atom h => exact ⟨_, _, rfl, Nat.le_of_eq (TokenKind.lead_eq_zero_of_atom? h)⟩
  | parens _ _ => exact ⟨_, _, rfl, by decide⟩
  | list _ _ => exact ⟨_, _, rfl, by decide⟩
  | nothing => exact (hp rfl).elim
  | listed _ _ => exact (hp rfl).elim
  | last _ ih => exact ih (by decide)
  | lastComma _ ih =>
      obtain ⟨t, us, rfl, ht⟩ := ih (by decide)
      exact ⟨t, _, rfl, ht⟩
  | more _ _ ih _ =>
      obtain ⟨t, us, rfl, ht⟩ := ih (by decide)
      exact ⟨t, _, rfl, ht⟩

/-- The end of a text is no part of a phrase. -/
theorem eof_notMem
    {callable : List TokenKind → Prop} {p : Phrase} {ts : List TokenKind} {e : Expr}
    (d : Derivation callable p ts e) :
    .eof ∉ ts := by
  have hwords (op : CompareOp) : .eof ∉ op.words := by
    cases op <;> simp [CompareOp.words]
  induction d with
  | @link k op _ _ _ _ _ _ hop _ _ _ ihl ihr =>
      have hsign : .eof ≠ op := by
        rintro rfl
        cases k <;> cases hop
      simp [ihl, ihr, hsign]
  | atom h =>
      rintro (_ | ⟨_, ⟨⟩⟩)
      cases h
  | _ => simp_all

end Derivation
end LiveProbe
