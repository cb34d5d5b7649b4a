import LiveProbe.Proofs.Expr.Frames
import LiveProbe.Proofs.Expr.Height
import LiveProbe.Proofs.Expr.Recognition
import LiveProbe.Proofs.Expr.Spelling

/-!
# The highest trees of texts

The bound on heights is attained, and it is all that bounds evaluation.

**Texts.**  Trees are built from a few tokens, each of which is written with a blank behind
it (`Piece`), so that a text has the tokens that it was written with.

**Construction.**  At the bottom stands a name, or a list around the highest expression of
one level less.  Each kind of chain above it takes all its links, as does the comparison
its one (`built_tallest`).

**Results.**
* `Parser.parse_height_sharp`: a text that takes `r` levels has a tree no higher than
  `tallest r`, which is at most 25451 and as many frames as its evaluation may need below
  the first; some text attains it, so that all such texts keep the limit just for `r ≤ 5`.
* `Parser.parse_exceeds_depth`: a text within the limit on levels with a tree above it.
-/

namespace LiveProbe

open LiveProbe.Parser

/-! ### Texts -/

/-- The tokens of high trees. -/
inductive Piece
  | name | leftBracket | rightBracket | dot | star | plus | less | and | or | not

/-- The token of a piece. -/
def Piece.kind : Piece → TokenKind
  | .name => .ident "a"
  | .leftBracket => .symbol .leftBracket
  | .rightBracket => .symbol .rightBracket
  | .dot => .symbol .dot
  | .star => .symbol .star
  | .plus => .symbol .plus
  | .less => .symbol .lt
  | .and => .keyword .and
  | .or => .keyword .or
  | .not => .keyword .not

/-- The text of a piece, closed by a blank. -/
def Piece.text : Piece → List Char
  | .name => ['a', ' ']
  | .leftBracket => ['[', ' ']
  | .rightBracket => [']', ' ']
  | .dot => ['.', ' ']
  | .star => ['*', ' ']
  | .plus => ['+', ' ']
  | .less => ['<', ' ']
  | .and => ['a', 'n', 'd', ' ']
  | .or => ['o', 'r', ' ']
  | .not => ['n', 'o', 't', ' ']

/-- The text of some pieces. -/
def Piece.source (ps : List Piece) : String := String.ofList (ps.flatMap Piece.text)

namespace Lexer

theorem tokensFrom_piece
    (acc : List Token) (position : Nat) (p : Piece) (rest : List Char) :
    ∃ position', tokensFrom acc position (p.text ++ rest) =
      tokensFrom (⟨p.kind, position⟩ :: acc) position' rest := by
  cases p <;> exact ⟨_, (tokensFrom_scan (by decide) rfl).trans tokensFrom_blank⟩

theorem tokensFrom_pieces
    (acc : List Token) (position : Nat) (ps : List Piece) :
    ∃ tokens, tokensFrom acc position (ps.flatMap Piece.text) = .ok tokens ∧
      tokens.map Token.kind = (acc.map Token.kind).reverse ++ ps.map Piece.kind ++ [.eof] := by
  induction ps generalizing acc position with
  | nil =>
      refine ⟨_, by rw [List.flatMap_nil, tokensFrom], ?_⟩
      simp
  | cons p ps ih =>
      obtain ⟨position', hstep⟩ := tokensFrom_piece acc position p (ps.flatMap Piece.text)
      obtain ⟨tokens, htokens, hkinds⟩ := ih (⟨p.kind, position⟩ :: acc) position'
      refine ⟨tokens, by rw [List.flatMap_cons, hstep, htokens], ?_⟩
      simpa using hkinds

end Lexer

/-- The source of pieces is tokenized to their kinds. -/
theorem tokenize_source
    (ps : List Piece) :
    ∃ tokens, Lexer.tokenize (Piece.source ps) = .ok tokens ∧
      tokens.map Token.kind = ps.map Piece.kind ++ [.eof] := by
  obtain ⟨tokens, htokens, hkinds⟩ := Lexer.tokensFrom_pieces [] 0 ps
  refine ⟨tokens, ?_, hkinds⟩
  rw [Lexer.tokenize, Piece.source, String.toList_ofList, htokens]

/-- Pieces that derive a tree within the limit are parsed to it. -/
theorem parse_source
    (ps : List Piece)
    {e : Expr}
    (D : Derivation anyTokens (.chain .or) (ps.map Piece.kind) e)
    (hlevels : D.levels ≤ Limits.expressionDepth) :
    parse (Piece.source ps) = .ok e := by
  obtain ⟨tokens, hlex, hkinds⟩ := tokenize_source ps
  have hparse : parse (Piece.source ps) = parseKinds (tokens.map Token.kind) := by
    rw [parse, hlex]
    rfl
  rw [hparse, hkinds]
  refine (parseKinds_of_derivation D).trans (if_pos ?_)
  omega

/-! ### Construction -/

/-- There are pieces of a phrase with so many links and levels, and a tree so high. -/
def Built (p : Phrase) (links levels height : Nat) : Prop :=
  ∃ (ps : List Piece) (e : Expr) (D : Derivation anyTokens p (ps.map Piece.kind) e),
    D.links = links ∧ D.levels = levels ∧ e.height = height

/-- A name as operand of a chain. -/
def Derivation.nameOperand : (k : Chain) →
    Derivation anyTokens k.operand ([Piece.name].map Piece.kind) (.name "a")
  | .product => .unsigned (.unsuffixed (.atom rfl))
  | .sum => .operand (.unsigned (.unsuffixed (.atom rfl)))
  | .and => .positive (.sum (.operand (.operand (.unsigned (.unsuffixed (.atom rfl))))))
  | .or => .operand (.positive (.sum (.operand (.operand (.unsigned (.unsuffixed (.atom rfl)))))))

theorem Derivation.levels_nameOperand
    (k : Chain) :
    (Derivation.nameOperand k).levels = 0 := by
  cases k <;> rfl

/-- A sign of a chain. -/
def Parser.Chain.sign : Chain → Piece
  | .or => .or
  | .and => .and
  | .sum => .plus
  | .product => .star

theorem Parser.Chain.exists_join
    (k : Chain) :
    ∃ join, k.join? k.sign.kind = some join := by
  cases k <;> exact ⟨_, rfl⟩

namespace Built

variable {p : Phrase} {k : Chain} {links m h : Nat}

theorem operand
    (built : Built k.operand links m h) :
    Built (.chain k) 0 m h := by
  obtain ⟨ps, e, D, -, hlevels, hheight⟩ := built
  exact ⟨ps, e, D.operand, rfl, hlevels, hheight⟩

/-- A link makes a chain one higher, for one level. -/
theorem link
    (built : Built (.chain k) links m h)
    (hlinks : links < m) :
    Built (.chain k) (links + 1) m (h + 1) := by
  obtain ⟨ps, e, D, rfl, rfl, rfl⟩ := built
  obtain ⟨join, hjoin⟩ := k.exists_join
  have hts : (ps ++ [k.sign, Piece.name]).map Piece.kind =
      ps.map Piece.kind ++ k.sign.kind :: [Piece.name].map Piece.kind := by
    simp
  refine ⟨ps ++ [k.sign, .name], join e (.name "a"), ?_⟩
  rw [hts]
  refine ⟨.link hjoin rfl D (.nameOperand k), rfl, ?_, ?_⟩
  · simp only [Derivation.levels, Derivation.levels_nameOperand]
    omega
  · rw [Expr.height_join hjoin, Expr.height]
    omega

/-- A field access makes a suffixed phrase one higher, for one level. -/
theorem field
    (built : Built .suffixed links m h)
    (hlinks : links < m) :
    Built .suffixed (links + 1) m (h + 1) := by
  obtain ⟨ps, e, D, rfl, rfl, rfl⟩ := built
  refine ⟨ps ++ [.dot, .name], .field e "a", ?_⟩
  rw [List.map_append]
  refine ⟨.field D, rfl, ?_, rfl⟩
  simp only [Derivation.levels]
  omega

/-- As many links as there are levels. -/
theorem all
    (step : ∀ {links h : Nat}, Built p links m h → links < m → Built p (links + 1) m (h + 1))
    (built : Built p 0 m h) :
    Built p m m (h + m) := by
  have upTo : ∀ n ≤ m, Built p n m (h + n) := by
    intro n hn
    induction n with
    | zero => exact built
    | succ n ih => exact step (ih (Nat.le_of_succ_le hn)) hn
  exact upTo m (Nat.le_refl m)

theorem chain
    (k : Chain) (built : Built k.operand links m h) :
    Built (.chain k) m m (h + m) :=
  all link built.operand

/-- A comparison makes the tree one higher for nothing. -/
theorem compared
    (built : Built (.chain .sum) links m h) :
    Built .negation 0 m (h + 1) := by
  obtain ⟨ps, e, D, -, rfl, rfl⟩ := built
  have hts : (ps ++ [Piece.less, Piece.name]).map Piece.kind =
      ps.map Piece.kind ++ CompareOp.lt.words ++ [Piece.name].map Piece.kind := by
    rw [List.map_append, List.append_assoc]
    rfl
  refine ⟨ps ++ [.less, .name], .compare e [(.lt, .name "a")], ?_⟩
  rw [hts]
  refine ⟨.positive (.linked (.first D (.operand (.nameOperand .sum)))), rfl, ?_, ?_⟩
  · simp only [Derivation.levels, Derivation.levels_nameOperand]
    omega
  · simp only [Expr.height, Expr.heightLinks]
    omega

theorem list
    (built : Built (.chain .or) links m h) :
    Built .primary 0 (m + 1) (h + 1) := by
  obtain ⟨ps, e, D, -, rfl, rfl⟩ := built
  refine ⟨.leftBracket :: (ps ++ [.rightBracket]), .list [e], ?_⟩
  rw [List.map_cons, List.map_append]
  refine ⟨.list (.listed (.last D)), rfl, rfl, ?_⟩
  simp only [Expr.height, Expr.heightItems]
  omega

/-- A suffixed phrase may use all its levels for fields, and gives them back. -/
theorem suffixed
    (built : Built .primary links m h) :
    Built .signed 0 m (h + m) := by
  obtain ⟨ps, e, D, -, rfl, rfl⟩ := built
  have base : Built .suffixed 0 D.levels e.height := ⟨ps, e, .unsuffixed D, rfl, rfl, rfl⟩
  obtain ⟨ps', e', D', -, hlevels, hheight⟩ := all field base
  exact ⟨ps', e', .unsigned D', rfl, hlevels, hheight⟩

/-- Everything that a primary may stand below. -/
theorem expression
    (built : Built .primary links m h) :
    Built (.chain .or) m m (h + 5 * m + 1) := by
  have hsum : Built (.chain .sum) m m (h + m + m + m) := chain .sum (chain .product built.suffixed)
  have hor : Built (.chain .or) m m (h + m + m + m + 1 + m + m) :=
    chain .or (chain .and hsum.compared)
  rwa [show h + m + m + m + 1 + m + m = h + 5 * m + 1 by omega] at hor

end Built

/-- The tallest primary is built, level by level. -/
theorem built_tallestPrimary
    (r : Nat) :
    Built .primary 0 r (tallestPrimary r) := by
  induction r with
  | zero => exact ⟨[.name], .name "a", .atom rfl, rfl, rfl, rfl⟩
  | succ r ih =>
      rw [tallestPrimary_succ]
      exact ih.expression.list

theorem built_tallest
    (r : Nat) :
    Built (.chain .or) r r (tallest r) :=
  (built_tallestPrimary r).expression

theorem tallestPrimary_le
    {r n : Nat}
    (h : r ≤ n) :
    tallestPrimary r ≤ tallestPrimary n := by
  induction h with
  | refl => exact Nat.le_refl _
  | step _ ih =>
      simp only [tallestPrimary]
      omega

theorem tallest_le
    {r n : Nat}
    (h : r ≤ n) :
    tallest r ≤ tallest n := by
  have hprimary := tallestPrimary_le h
  unfold tallest
  omega

/-! ### Main results -/

namespace Parser

theorem tallest_limit : tallest Limits.expressionDepth = 25451 := by
  decide +kernel

/-- The text has the tree, and reading it takes so many levels. -/
def Takes (r : Nat) (source : String) (tree : Expr) : Prop :=
  parse source = .ok tree ∧
    ∃ tokens kinds, Lexer.tokenize source = .ok tokens ∧
      tokens.map Token.kind = kinds ++ [.eof] ∧
      ∃ D : Derivation anyTokens (.chain .or) kinds tree, D.levels = r

/-- A tree that is parsed takes some number of levels within the limit. -/
theorem exists_takes
    {source : String} {tree : Expr}
    (h : parse source = .ok tree) :
    ∃ r ≤ Limits.expressionDepth, Takes r source tree := by
  have hparse := h
  rw [parse] at hparse
  obtain ⟨tokens, hlex, hkinds⟩ := bind_eq_ok hparse
  obtain ⟨kinds, hmap, heof⟩ := Lexer.tokenize_eq_append hlex
  rw [hmap] at hkinds
  obtain ⟨D, hlevels⟩ := exists_derivation_of_parseKinds heof hkinds
  exact ⟨D.levels, hlevels, h, tokens, kinds, hlex, hmap, D, rfl⟩

/-- A tree of `r` levels is at most `tallest r` high. -/
theorem Takes.height_le
    {r : Nat} {source : String} {tree : Expr}
    (h : Takes r source tree) :
    tree.height ≤ tallest r := by
  obtain ⟨_, _, _, _, _, D, hlevels⟩ := h
  exact D.height_le_tallest (Nat.le_of_eq hlevels)

theorem exists_takes_tallest
    {r : Nat}
    (hr : r ≤ Limits.expressionDepth) :
    ∃ source tree, Takes r source tree ∧ tree.height = tallest r := by
  obtain ⟨ps, e, D, -, hlevels, hheight⟩ := built_tallest r
  obtain ⟨tokens, hlex, hkinds⟩ := tokenize_source ps
  exact ⟨Piece.source ps, e,
    ⟨parse_source ps D (hlevels ▸ hr), tokens, _, hlex, hkinds, D, hlevels⟩, hheight⟩

/-- Where more than five levels are taken, the limit may be exceeded. -/
theorem takes_within_iff
    {r : Nat}
    (hr : r ≤ Limits.expressionDepth) :
    (∀ source tree, Takes r source tree → tree.height ≤ Limits.expressionDepth) ↔ r ≤ 5 := by
  constructor
  · intro hall
    by_contra hmany
    obtain ⟨source, tree, htakes, hheight⟩ := exists_takes_tallest hr
    have hwithin := hall source tree htakes
    have hsix : tallest 6 ≤ tallest r := tallest_le (by omega)
    have hvalue : Limits.expressionDepth < tallest 6 := by
      decide
    omega
  · intro hfew source tree htakes
    have hbound := htakes.height_le
    have hfive : tallest r ≤ tallest 5 := tallest_le hfew
    have hvalue : tallest 5 ≤ Limits.expressionDepth := by
      decide
    omega

/-- The sharp bound: a parsed tree takes some number of levels, is at most as high as the tallest
tree of so many, and another source of as many levels is parsed to a tree of just that height.
Evaluation needs one step of recursion more than the height. -/
theorem parse_height_sharp
    {source : String} {tree : Expr}
    (h : parse source = .ok tree) :
    ∃ r ≤ Limits.expressionDepth, Takes r source tree ∧
      tree.height ≤ tallest r ∧ tallest r ≤ 25451 ∧
      (∀ full b, Eval.evaluateWithin full b (tallest r + 1) tree = Eval.evaluate b tree) ∧
      (∃ other otherTree, Takes r other otherTree ∧ otherTree.height = tallest r) ∧
      ((∀ other otherTree, Takes r other otherTree →
        otherTree.height ≤ Limits.expressionDepth) ↔ r ≤ 5) := by
  obtain ⟨r, hr, htakes⟩ := exists_takes h
  have hheight := htakes.height_le
  refine ⟨r, hr, htakes, hheight, ?_, ?_, exists_takes_tallest hr, takes_within_iff hr⟩
  · exact tallest_limit ▸ tallest_le hr
  · intro full b
    exact Eval.evaluateWithin_eq (tallest r + 1) tree (Nat.lt_succ_of_le hheight)

/-- A comparison of names. -/
def comparison : Derivation anyTokens .negation ([Piece.name, .less, .name].map Piece.kind)
    (.compare (.name "a") [(.lt, .name "a")]) :=
  let compared : Derivation anyTokens .linked
      ([Piece.name].map Piece.kind ++ CompareOp.lt.words ++ [Piece.name].map Piece.kind)
      (.compare (.name "a") [(.lt, .name "a")]) :=
    .first (.operand (.nameOperand .sum)) (.operand (.nameOperand .sum))
  .positive (.linked compared)

/-- A comparison takes no level and still has height one. -/
theorem parse_height_sharp_comparison :
    let tree : Expr := .compare (.name "a") [(.lt, .name "a")]
    parse "a < a " = .ok tree ∧
      ∃ r ≤ Limits.expressionDepth, Takes r "a < a " tree ∧ tree.height ≤ tallest r := by
  intro tree
  have hparse : parse "a < a " = .ok tree :=
    parse_source [.name, .less, .name] (.operand (.operand comparison)) (by decide)
  obtain ⟨r, hr, htakes, hheight, -⟩ := parse_height_sharp hparse
  exact ⟨hparse, r, hr, htakes, hheight⟩

/-- Negations of a comparison. -/
def negations (n : Nat) : List Piece :=
  List.replicate n .not ++ [.name, .less, .name]

theorem exists_negations
    (n : Nat) :
    ∃ (e : Expr) (D : Derivation anyTokens .negation ((negations n).map Piece.kind) e),
      D.levels = n ∧ e.height = n + 1 := by
  induction n with
  | zero =>
      refine ⟨_, comparison, rfl, ?_⟩
      simp only [Expr.height, Expr.heightLinks]
      rfl
  | succ n ih =>
      obtain ⟨e, D, hlevels, hheight⟩ := ih
      exact ⟨.not e, .not D, congrArg (· + 1) hlevels, by rw [Expr.height, hheight]⟩

/-- A hundred negations of a comparison are within the limit and higher than it. -/
theorem parse_exceeds_depth :
    ∃ tree, parse (String.join (List.replicate 100 "not ") ++ "a < a ") = .ok tree ∧
      Limits.expressionDepth < tree.height := by
  obtain ⟨e, D, hlevels, hheight⟩ := exists_negations Limits.expressionDepth
  have hparse : parse (Piece.source (negations 100)) = .ok e :=
    parse_source (negations 100) (.operand (.operand D)) (Nat.le_of_eq hlevels)
  have hsource : Piece.source (negations 100) =
      String.join (List.replicate 100 "not ") ++ "a < a " := by
    decide +kernel
  exact ⟨e, hsource ▸ hparse, by omega⟩

end Parser
end LiveProbe
