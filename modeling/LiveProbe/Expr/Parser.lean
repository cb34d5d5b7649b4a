import LiveProbe.Expr.Lexer
import LiveProbe.Expr.Syntax
import LiveProbe.Limits

/-!
# Trees of token lists

The grammar, loosest first: `or`, `and`, `not`, comparisons, sums, products,
signs, suffixes (fields, indices and calls), primaries.

**Algorithm.** Recursive descent. Every function takes the number of levels
entered so far and the unread tokens, and returns both. A level is entered for
every link of a chain, every sign, suffix, parenthesis and list, and is left
again when the construct is complete, so that siblings are charged alike.
Comparisons form one flat node and enter no level.

**Results.**
* `Parsed.shorter`: whatever is read takes at least one token, which bounds the
  recursion.
-/

namespace LiveProbe
namespace Parser

/-- Something read off the front of fewer than `n + 1` tokens: its value, the
levels still entered, and the unread rest. -/
structure Parsed (α : Type) (n : Nat) where
  value : α
  depth : Nat
  rest : List TokenKind
  shorter : rest.length < n

/-- The four kinds of chains that group to the left. -/
inductive Chain
  | or | and | sum | product
  deriving DecidableEq, Repr

/-- What a token joins two operands of a chain to. -/
def Chain.join? : Chain → TokenKind → Option (Expr → Expr → Expr)
  | .or, .keyword .or => some .or
  | .and, .keyword .and => some .and
  | .sum, .symbol .plus => some (.binary .add)
  | .sum, .symbol .minus => some (.binary .sub)
  | .product, .symbol .star => some (.binary .mul)
  | .product, .symbol .slash => some (.binary .div)
  | .product, .symbol .percent => some (.binary .mod)
  | _, _ => none

/-- Looser chains have higher ranks. -/
def Chain.rank : Chain → Nat
  | .or => 16
  | .and => 14
  | .sum => 10
  | .product => 8

theorem Chain.rank_pos (k : Chain) : 0 < k.rank := by cases k <;> decide

theorem Chain.rank_le (k : Chain) : k.rank ≤ 16 := by cases k <;> decide

/-- One more level, unless the limit is reached. -/
def enter (depth : Nat) : Except EvalError Nat :=
  if depth < Limits.expressionDepth then .ok (depth + 1)
  else .error (.tooDeep Limits.expressionDepth)

/-- The fault of finding `rest` where something else was expected. -/
def unexpected (expected : String) : List TokenKind → EvalError
  | [] | .eof :: _ => .unexpectedEnd
  | kind :: _ => .unexpectedToken kind.describe expected

/-- The comparison at the front and what follows it. -/
def comparison? : List TokenKind → Option (CompareOp × List TokenKind)
  | .symbol .eq :: ts => some (.eq, ts)
  | .symbol .ne :: ts => some (.ne, ts)
  | .symbol .lt :: ts => some (.lt, ts)
  | .symbol .le :: ts => some (.le, ts)
  | .symbol .gt :: ts => some (.gt, ts)
  | .symbol .ge :: ts => some (.ge, ts)
  | .keyword .mem :: ts => some (.mem, ts)
  | .keyword .not :: .keyword .mem :: ts => some (.notMem, ts)
  | .keyword .same :: .keyword .not :: ts => some (.notSame, ts)
  | .keyword .same :: ts => some (.same, ts)
  | _ => none

theorem comparison?_length {ts rest : List TokenKind} {op : CompareOp}
    (h : comparison? ts = some (op, rest)) : rest.length < ts.length := by
  unfold comparison? at h
  split at h <;> grind

/-- Drops the sign `close` off the front. -/
def close (sign : Symbol) (rest : List TokenKind) :
    Except EvalError { ts : List TokenKind // ts.length < rest.length } :=
  match rest with
  | .symbol s :: ts =>
    if s = sign then .ok ⟨ts, by simp⟩
    else .error (unexpected s!"'{sign.spelling}'" (.symbol s :: ts))
  | ts => .error (unexpected s!"'{sign.spelling}'" ts)

/-- The wording of something that cannot be called. -/
def describeCallee : Expr → String
  | .field _ name => name
  | .str _ => "str"
  | .int _ => "int"
  | .float _ => "float"
  | .list _ => "list"
  | _ => "expression"

/-- The negative of an operand; a literal is negated itself. -/
def negated : Expr → Expr
  | .int value => .int (-value)
  | .float value => .float (-value)
  | operand => .negate operand

/-- A chain of comparisons is a node of its own only if it has a link. -/
def compared (first : Expr) : List (CompareOp × Expr) → Expr
  | [] => first
  | links => .compare first links

mutual

/-- Operands joined to the left by the signs of a chain. -/
def parseChain (k : Chain) (depth : Nat) (ts : List TokenKind) :
    Except EvalError (Parsed Expr ts.length) := do
  let first ← parseOperand k depth ts
  let all ← parseLinks k first.value ts.length first.depth first.rest first.shorter
  return { all with depth := depth }
termination_by ts.length * 32 + k.rank
decreasing_by
  · have := k.rank_pos; omega
  · have := first.shorter; omega

/-- An operand of a chain is of the next tighter kind. -/
def parseOperand (k : Chain) (depth : Nat) (ts : List TokenKind) :
    Except EvalError (Parsed Expr ts.length) :=
  match k with
  | .or => parseChain .and depth ts
  | .and => parseNot depth ts
  | .sum => parseChain .product depth ts
  | .product => parseSigned depth ts
termination_by ts.length * 32 + k.rank - 1
decreasing_by all_goals simp only [Chain.rank]; omega

/-- The further links of a chain whose operands so far make up `left`. -/
def parseLinks (k : Chain) (left : Expr) (n depth : Nat) (ts : List TokenKind)
    (h : ts.length < n) : Except EvalError (Parsed Expr n) :=
  match ts with
  | [] => return ⟨left, depth, [], h⟩
  | t :: ts =>
    match k.join? t with
    | none => return ⟨left, depth, t :: ts, h⟩
    | some join => do
      let depth ← enter depth
      let right ← parseOperand k depth ts
      parseLinks k (join left right.value) n right.depth right.rest (by
        have := right.shorter
        simp only [List.length_cons] at h
        omega)
termination_by ts.length * 32
decreasing_by
  · have := k.rank_le
    simp only [List.length_cons]; omega
  · have := right.shorter
    simp only [List.length_cons]; omega

/-- A comparison below any number of negations. -/
def parseNot (depth : Nat) (ts : List TokenKind) : Except EvalError (Parsed Expr ts.length) :=
  match ts with
  | .keyword .not :: ts => do
    let depth ← enter depth
    let inner ← parseNot depth ts
    return ⟨.not inner.value, inner.depth - 1, inner.rest, Nat.lt_succ_of_lt inner.shorter⟩
  | ts => parseComparison depth ts
termination_by ts.length * 32 + 12

/-- Sums compared with one another. -/
def parseComparison (depth : Nat) (ts : List TokenKind) :
    Except EvalError (Parsed Expr ts.length) := do
  let first ← parseChain .sum depth ts
  let links ← parseCompared [] ts.length first.depth first.rest first.shorter
  return { links with value := compared first.value links.value }
termination_by ts.length * 32 + 11
decreasing_by
  · simp only [Chain.rank]; omega
  · have := first.shorter; omega

/-- The further links of a comparison; those before are in `acc`, last first. -/
def parseCompared (acc : List (CompareOp × Expr)) (n depth : Nat) (ts : List TokenKind)
    (h : ts.length < n) : Except EvalError (Parsed (List (CompareOp × Expr)) n) :=
  match hc : comparison? ts with
  | none => return ⟨acc.reverse, depth, ts, h⟩
  | some (op, rest) => do
    let right ← parseChain .sum depth rest
    parseCompared ((op, right.value) :: acc) n right.depth right.rest (by
      have := right.shorter
      have := comparison?_length hc
      omega)
termination_by ts.length * 32
decreasing_by
  · have := comparison?_length hc
    simp only [Chain.rank]; omega
  · have := comparison?_length hc
    have := right.shorter
    omega

/-- A suffixed primary below any number of signs. -/
def parseSigned (depth : Nat) (ts : List TokenKind) :
    Except EvalError (Parsed Expr ts.length) :=
  match ts with
  | .symbol .minus :: ts => do
    let depth ← enter depth
    let inner ← parseSigned depth ts
    return ⟨negated inner.value, inner.depth - 1, inner.rest, Nat.lt_succ_of_lt inner.shorter⟩
  | .symbol .plus :: ts => do
    let depth ← enter depth
    let inner ← parseSigned depth ts
    return ⟨inner.value, inner.depth - 1, inner.rest, Nat.lt_succ_of_lt inner.shorter⟩
  | ts => parseSuffixed depth ts
termination_by ts.length * 32 + 6

/-- A primary with its suffixes. -/
def parseSuffixed (depth : Nat) (ts : List TokenKind) :
    Except EvalError (Parsed Expr ts.length) := do
  let first ← parsePrimary depth ts
  let all ← parseSuffixes first.value ts.length first.depth first.rest first.shorter
  return { all with depth := depth }
termination_by ts.length * 32 + 5
decreasing_by
  · omega
  · have := first.shorter; omega

/-- The suffixes of `target`. -/
def parseSuffixes (target : Expr) (n depth : Nat) (ts : List TokenKind) (h : ts.length < n) :
    Except EvalError (Parsed Expr n) :=
  match ts with
  | .symbol .dot :: ts => do
    let depth ← enter depth
    match ht : ts with
    | .ident name :: rest =>
      parseSuffixes (.field target name) n depth rest (by
        simp only [ht, List.length_cons] at h
        omega)
    | rest => throw (unexpected "attribute name" rest)
  | .symbol .leftBracket :: ts => do
    let depth ← enter depth
    let index ← parseChain .or depth ts
    let rest ← close .rightBracket index.rest
    parseSuffixes (.index target index.value) n index.depth rest.val (by
      have := index.shorter
      have := rest.property
      simp only [List.length_cons] at h
      omega)
  | .symbol .leftParen :: ts =>
    match target with
    | .name function => do
      let depth ← enter depth
      let args ← parseItems .rightParen depth ts
      parseSuffixes (.call function args.value) n args.depth args.rest (by
        have := args.shorter
        simp only [List.length_cons] at h
        omega)
    | target => throw (.notCallable (describeCallee target))
  | ts => return ⟨target, depth, ts, h⟩
termination_by ts.length * 32
decreasing_by
  · simp only [ht, List.length_cons]; omega
  · simp only [List.length_cons, Chain.rank]; omega
  · have := index.shorter
    have := rest.property
    simp only [List.length_cons]; omega
  · simp only [List.length_cons]; omega
  · have := args.shorter
    simp only [List.length_cons]; omega

/-- Literals, names, parentheses and lists. -/
def parsePrimary (depth : Nat) (ts : List TokenKind) :
    Except EvalError (Parsed Expr ts.length) :=
  match ts with
  | .int value :: ts => return ⟨.int value, depth, ts, by simp⟩
  | .float value :: ts => return ⟨.float value, depth, ts, by simp⟩
  | .str value :: ts => return ⟨.str value, depth, ts, by simp⟩
  | .keyword .none :: ts => return ⟨.none, depth, ts, by simp⟩
  | .keyword .true :: ts => return ⟨.bool true, depth, ts, by simp⟩
  | .keyword .false :: ts => return ⟨.bool false, depth, ts, by simp⟩
  | .ident name :: ts => return ⟨.name name, depth, ts, by simp⟩
  | .symbol .leftParen :: ts => do
    let depth ← enter depth
    let inner ← parseChain .or depth ts
    let rest ← close .rightParen inner.rest
    return ⟨inner.value, inner.depth - 1, rest.val, by
      have := inner.shorter
      have := rest.property
      simp only [List.length_cons]
      omega⟩
  | .symbol .leftBracket :: ts => do
    let depth ← enter depth
    let items ← parseItems .rightBracket depth ts
    return ⟨.list items.value, items.depth - 1, items.rest, Nat.lt_succ_of_lt items.shorter⟩
  | ts => throw (unexpected "expression" ts)
termination_by ts.length * 32 + 4
decreasing_by
  · simp only [List.length_cons, Chain.rank]; omega
  · simp only [List.length_cons]; omega

/-- Expressions between commas up to the sign `sign`, which is consumed. A last
comma may stand before it. -/
def parseItems (sign : Symbol) (depth : Nat) (ts : List TokenKind) :
    Except EvalError (Parsed (List Expr) ts.length) :=
  match ts with
  | .symbol s :: ts =>
    if s = sign then return ⟨[], depth, ts, by simp⟩
    else parseMore sign [] (ts.length + 1) depth (.symbol s :: ts) (by simp)
  | ts => parseMore sign [] ts.length depth ts (Nat.le_refl _)
termination_by ts.length * 32 + 22
decreasing_by
  · simp only [List.length_cons]; omega
  · omega

/-- At least one further expression; those before are in `acc`, last first. -/
def parseMore (sign : Symbol) (acc : List Expr) (n depth : Nat) (ts : List TokenKind)
    (h : ts.length ≤ n) : Except EvalError (Parsed (List Expr) n) := do
  let item ← parseChain .or depth ts
  match hr : item.rest with
  | .symbol .comma :: .symbol s :: rest =>
    if s = sign then
      return ⟨(item.value :: acc).reverse, item.depth, rest, by
        have := item.shorter
        simp only [hr, List.length_cons] at this
        omega⟩
    else
      parseMore sign (item.value :: acc) n item.depth (.symbol s :: rest) (by
        have := item.shorter
        simp only [hr, List.length_cons] at this
        simp only [List.length_cons]
        omega)
  | .symbol .comma :: rest =>
    parseMore sign (item.value :: acc) n item.depth rest (by
      have := item.shorter
      simp only [hr, List.length_cons] at this
      omega)
  | _ =>
    let rest ← close sign item.rest
    return ⟨(item.value :: acc).reverse, item.depth, rest.val, by
      have := item.shorter
      have := rest.property
      omega⟩
termination_by ts.length * 32 + 20
decreasing_by
  · simp only [Chain.rank]; omega
  · have := item.shorter
    simp only [hr, List.length_cons] at this
    simp only [List.length_cons]
    omega
  · have := item.shorter
    simp only [hr, List.length_cons] at this
    omega

end

/-- The tree of a complete list of tokens. -/
def parseKinds (kinds : List TokenKind) : Except EvalError Expr := do
  let tree ← parseChain .or 0 kinds
  match tree.rest with
  | [] | .eof :: _ => return tree.value
  | rest => throw (unexpected "end of expression" rest)

/-- The tree of a text. -/
def parse (source : String) : Except EvalError Expr := do
  let tokens ← Lexer.tokenize source
  parseKinds (tokens.map Token.kind)

end Parser
end LiveProbe
