import LiveProbe.Expr.Parser

/-!
# Readings

The functions of the parser without the proofs that they carry along.

**Reading.**  What is read is a value, the levels still entered, and the unread rest
(`Read`).  For each function of the parser there is one equation that says what it reads
in terms of the others; nothing else opens the parser.

**Budget.**  Entering a level fails at the limit and nowhere else.  A reading that needs a
number of levels thus stands or falls with one comparison (`within`), whatever is charged
on the way.

**Results.**
* `within_within`, `within_add`, `enter_bind`: needs in turn are the larger need, needs on
  top of a level add up to it.
* `readChain_eq` and its companions: the equations.
-/

namespace LiveProbe
namespace Parser

/-- What was read off the front of some tokens. -/
structure Read (α : Type) where
  value : α
  depth : Nat
  rest : List TokenKind

/-- A reading, whatever bound it was shown to keep. -/
def outcome {α : Type} {n : Nat} (r : Except EvalError (Parsed α n)) :
    Except EvalError (Read α) :=
  r.map fun x => ⟨x.value, x.depth, x.rest⟩

section Outcome

variable {α β : Type} {n m : Nat}

/-- What is read by two steps is what the second reads after the first. -/
theorem outcome_bind
    (r : Except EvalError β) (k : β → Except EvalError (Parsed α n)) :
    outcome (r >>= k) = r >>= fun x => outcome (k x) := by
  cases r <;> rfl

/-- The second step may be replaced by one on what was read. -/
theorem outcome_bind_parsed
    {r : Except EvalError (Parsed β m)} {k : Parsed β m → Except EvalError (Parsed α n)}
    {k' : Read β → Except EvalError (Read α)}
    (h : ∀ x : Parsed β m, outcome (k x) = k' ⟨x.value, x.depth, x.rest⟩) :
    outcome (r >>= k) = outcome r >>= k' := by
  cases r with
  | error e => rfl
  | ok x => exact h x

theorem length_rest_lt
    {r : Except EvalError (Parsed α n)} {x : Read α}
    (h : outcome r = .ok x) :
    x.rest.length < n := by
  cases r with
  | error e => cases h
  | ok y =>
      cases h
      exact y.shorter

end Outcome

/-! ### Budget -/

section Budget

variable {α β : Type}

/-- A reading at a depth that needs a number of further levels. -/
def within (depth need : Nat) (r : Except EvalError α) : Except EvalError α :=
  if depth + need ≤ Limits.expressionDepth then r
  else .error (.tooDeep Limits.expressionDepth)

/-- Nothing is refused where no further level is needed. -/
theorem within_zero
    {depth : Nat}
    (h : depth ≤ Limits.expressionDepth)
    (r : Except EvalError α) :
    within depth 0 r = r :=
  if_pos h

theorem within_congr
    {depth need : Nat} {r r' : Except EvalError α}
    (h : depth + need ≤ Limits.expressionDepth → r = r') :
    within depth need r = within depth need r' := by
  unfold within
  split
  · next hfits => exact h hfits
  · rfl

/-- Two limits at one depth are the stricter of them. -/
theorem within_within
    (depth a b : Nat) (r : Except EvalError α) :
    within depth a (within depth b r) = within depth (max a b) r := by
  unfold within
  by_cases ha : depth + a ≤ Limits.expressionDepth
  · by_cases hb : depth + b ≤ Limits.expressionDepth
    · rw [if_pos ha, if_pos hb, if_pos (by omega)]
    · rw [if_pos ha, if_neg hb, if_neg (by omega)]
  · rw [if_neg ha, if_neg (by omega)]

/-- A limit asked for deeper down, seen from above. -/
theorem within_add
    (depth a b : Nat) (r : Except EvalError α) :
    within (depth + a) b r = within depth (a + b) r := by
  unfold within
  rw [Nat.add_assoc]

theorem within_bind
    (depth need : Nat) (r : Except EvalError α) (k : α → Except EvalError β) :
    within depth need r >>= k = within depth need (r >>= k) := by
  unfold within
  split <;> rfl

theorem within_ok_bind
    (depth need : Nat) (x : α) (k : α → Except EvalError β) :
    within depth need (.ok x) >>= k = within depth need (k x) :=
  within_bind depth need (.ok x) k

/-- Needs inside a level. -/
theorem within_one
    {depth need : Nat} {r r' : Except EvalError α}
    (h : depth + 1 ≤ Limits.expressionDepth → r = within (depth + 1) need r') :
    within depth 1 r = within depth (need + 1) r' := by
  rw [within_congr h, within_add, within_within]
  congr 1
  omega

/-- Needs inside a level that is entered on top of others. -/
theorem within_link
    {depth need links inner : Nat} {r r' : Except EvalError α}
    (k : α → Except EvalError β)
    (h : depth + links + 1 ≤ Limits.expressionDepth →
        r = within (depth + links + 1) inner r') :
    within depth need (within (depth + links) 1 r >>= k) =
      within depth (max need (links + 1 + inner)) (r' >>= k) := by
  rw [within_one h, within_bind, within_add, within_within]
  congr 1
  omega

theorem enter_bind
    (depth : Nat) (k : Nat → Except EvalError α) :
    enter depth >>= k = within depth 1 (k (depth + 1)) := by
  unfold within enter
  split <;> split <;> first | rfl | omega

/-- A need that is met was no hindrance. -/
theorem within_eq_ok
    {depth need : Nat} {r : Except EvalError α} {x : α}
    (h : within depth need r = .ok x) :
    depth + need ≤ Limits.expressionDepth ∧ r = .ok x := by
  unfold within at h
  split at h
  · next hfits => exact ⟨hfits, h⟩
  · cases h

/-- A reading in steps gave a value at each of them. -/
theorem bind_eq_ok
    {r : Except EvalError α} {k : α → Except EvalError β} {y : β}
    (h : r >>= k = .ok y) :
    ∃ x, r = .ok x ∧ k x = .ok y := by
  cases r with
  | error e => cases h
  | ok x => exact ⟨x, rfl, h⟩

end Budget

/-! ### The functions of the parser -/

def readChain (k : Chain) (depth : Nat) (ts : List TokenKind) : Except EvalError (Read Expr) :=
  outcome (parseChain k depth ts)

def readOperand (k : Chain) (depth : Nat) (ts : List TokenKind) : Except EvalError (Read Expr) :=
  outcome (parseOperand k depth ts)

def readLinks (k : Chain) (left : Expr) (depth : Nat) (ts : List TokenKind) :
    Except EvalError (Read Expr) :=
  outcome (parseLinks k left (ts.length + 1) depth ts (Nat.lt_succ_self _))

def readNot (depth : Nat) (ts : List TokenKind) : Except EvalError (Read Expr) :=
  outcome (parseNot depth ts)

def readComparison (depth : Nat) (ts : List TokenKind) : Except EvalError (Read Expr) :=
  outcome (parseComparison depth ts)

def readCompared (acc : List (CompareOp × Expr)) (depth : Nat) (ts : List TokenKind) :
    Except EvalError (Read (List (CompareOp × Expr))) :=
  outcome (parseCompared acc (ts.length + 1) depth ts (Nat.lt_succ_self _))

def readSigned (depth : Nat) (ts : List TokenKind) : Except EvalError (Read Expr) :=
  outcome (parseSigned depth ts)

def readSuffixed (depth : Nat) (ts : List TokenKind) : Except EvalError (Read Expr) :=
  outcome (parseSuffixed depth ts)

def readSuffixes (target : Expr) (depth : Nat) (ts : List TokenKind) :
    Except EvalError (Read Expr) :=
  outcome (parseSuffixes target (ts.length + 1) depth ts (Nat.lt_succ_self _))

def readPrimary (depth : Nat) (ts : List TokenKind) : Except EvalError (Read Expr) :=
  outcome (parsePrimary depth ts)

def readItems (sign : Symbol) (depth : Nat) (ts : List TokenKind) :
    Except EvalError (Read (List Expr)) :=
  outcome (parseItems sign depth ts)

def readMore (sign : Symbol) (acc : List Expr) (depth : Nat) (ts : List TokenKind) :
    Except EvalError (Read (List Expr)) :=
  outcome (parseMore sign acc (ts.length + 1) depth ts (Nat.le_succ _))

/-- The tokens behind a closing sign. -/
def readClose (sign : Symbol) (ts : List TokenKind) : Except EvalError (List TokenKind) :=
  (close sign ts).map Subtype.val

/-! ### Bounds do not matter -/

/-- The bound on the tokens does not change the links of a chain. -/
theorem outcome_parseLinks
    (k : Chain) (left : Expr) (depth : Nat) (ts : List TokenKind)
    {n m : Nat}
    (hn : ts.length < n)
    (hm : ts.length < m) :
    outcome (parseLinks k left n depth ts hn) = outcome (parseLinks k left m depth ts hm) := by
  induction hl : ts.length using Nat.strongRecOn generalizing left depth ts with
  | ind l ih =>
      unfold parseLinks
      cases ts with
      | nil => rfl
      | cons t ts =>
          dsimp only
          cases k.join? t with
          | none => rfl
          | some join =>
              dsimp only
              simp only [outcome_bind]
              congr 1
              funext depth
              congr 1
              funext right
              refine ih right.rest.length ?_ _ _ _ _ _ rfl
              have := right.shorter
              simp only [List.length_cons] at hl
              omega

theorem outcome_parseCompared
    (acc : List (CompareOp × Expr)) (depth : Nat) (ts : List TokenKind)
    {n m : Nat}
    (hn : ts.length < n)
    (hm : ts.length < m) :
    outcome (parseCompared acc n depth ts hn) = outcome (parseCompared acc m depth ts hm) := by
  induction hl : ts.length using Nat.strongRecOn generalizing acc depth ts with
  | ind l ih =>
      unfold parseCompared
      split
      · rfl
      · next op rest hop =>
          simp only [outcome_bind]
          congr 1
          funext right
          refine ih right.rest.length ?_ _ _ _ _ _ rfl
          have := right.shorter
          have := comparison?_length hop
          omega

theorem outcome_parseSuffixes
    (target : Expr) (depth : Nat) (ts : List TokenKind)
    {n m : Nat}
    (hn : ts.length < n)
    (hm : ts.length < m) :
    outcome (parseSuffixes target n depth ts hn) =
      outcome (parseSuffixes target m depth ts hm) := by
  induction hl : ts.length using Nat.strongRecOn generalizing target depth ts with
  | ind l ih =>
      subst hl
      unfold parseSuffixes
      split
      · next us =>
          simp only [outcome_bind]
          congr 1
          funext depth
          split
          · refine ih _ ?_ _ _ _ _ _ rfl
            simp only [List.length_cons]
            omega
          · rfl
      · next us =>
          simp only [outcome_bind]
          congr 1
          funext depth
          congr 1
          funext key
          congr 1
          funext rest
          refine ih _ ?_ _ _ _ _ _ rfl
          have := key.shorter
          have := rest.property
          simp only [List.length_cons]
          omega
      · next us =>
          split
          · simp only [outcome_bind]
            congr 1
            funext depth
            congr 1
            funext args
            refine ih _ ?_ _ _ _ _ _ rfl
            have := args.shorter
            simp only [List.length_cons]
            omega
          · rfl
      · next hdot hbracket hparen =>
          split
          · exact (hdot _ _ rfl HEq.rfl).elim
          · exact (hbracket _ _ rfl HEq.rfl).elim
          · exact (hparen _ _ rfl HEq.rfl).elim
          · rfl

theorem outcome_parseMore
    (sign : Symbol) (acc : List Expr) (depth : Nat) (ts : List TokenKind)
    {n m : Nat}
    (hn : ts.length ≤ n)
    (hm : ts.length ≤ m) :
    outcome (parseMore sign acc n depth ts hn) = outcome (parseMore sign acc m depth ts hm) := by
  induction hl : ts.length using Nat.strongRecOn generalizing acc depth ts with
  | ind l ih =>
      subst hl
      unfold parseMore
      simp only [outcome_bind]
      congr 1
      funext item
      have hshorter := item.shorter
      split
      · next s us hr =>
          rw [hr] at hshorter
          split
          · rfl
          · refine ih _ ?_ _ _ _ _ _ rfl
            simp only [List.length_cons] at hshorter ⊢
            omega
      · next us _ hr =>
          rw [hr] at hshorter
          refine ih _ ?_ _ _ _ _ _ rfl
          simp only [List.length_cons] at hshorter
          omega
      · simp only [outcome_bind]
        rfl

/-! ### Equations -/

/-- A chain is an operand and its links; the depth is that of the start. -/
theorem readChain_eq
    (k : Chain) (depth : Nat) (ts : List TokenKind) :
    readChain k depth ts = (do
      let first ← readOperand k depth ts
      let all ← readLinks k first.value first.depth first.rest
      return ⟨all.value, depth, all.rest⟩) := by
  rw [readChain, parseChain]
  refine outcome_bind_parsed fun first => ?_
  unfold readLinks
  rw [outcome_parseLinks _ _ _ _ (Nat.lt_succ_self _) first.shorter]
  exact outcome_bind_parsed fun _ => rfl

/-- The operand of each chain is the next tighter one. -/
theorem readOperand_eq
    (k : Chain) (depth : Nat) (ts : List TokenKind) :
    readOperand k depth ts =
      match k with
      | .or => readChain .and depth ts
      | .and => readNot depth ts
      | .sum => readChain .product depth ts
      | .product => readSigned depth ts := by
  rw [readOperand, parseOperand.eq_def]
  cases k <;> rfl

theorem readLinks_nil
    (k : Chain) (left : Expr) (depth : Nat) :
    readLinks k left depth [] = .ok ⟨left, depth, []⟩ := by
  rw [readLinks, parseLinks]
  rfl

/-- A further link is charged a level, kept for the links behind it. -/
theorem readLinks_cons
    (k : Chain) (left : Expr) (depth : Nat) (t : TokenKind) (ts : List TokenKind) :
    readLinks k left depth (t :: ts) =
      match k.join? t with
      | none => .ok ⟨left, depth, t :: ts⟩
      | some join => within depth 1 (do
          let right ← readOperand k (depth + 1) ts
          readLinks k (join left right.value) right.depth right.rest) := by
  unfold readLinks
  rw [parseLinks.eq_def]
  dsimp only
  cases k.join? t with
  | none => rfl
  | some join =>
      dsimp only
      rw [outcome_bind, enter_bind]
      congr 1
      exact outcome_bind_parsed fun _ => outcome_parseLinks _ _ _ _ _ _

/-- Each `not` is a level, given back behind its operand. -/
theorem readNot_eq
    (depth : Nat) (ts : List TokenKind) :
    readNot depth ts =
      match ts with
      | .keyword .not :: ts => within depth 1 (do
          let inner ← readNot (depth + 1) ts
          return ⟨.not inner.value, inner.depth - 1, inner.rest⟩)
      | ts => readComparison depth ts := by
  -- The right-hand side is split before the left is opened, so that each split has one match.
  split
  · rw [readNot, parseNot.eq_def]
    dsimp only
    rw [outcome_bind, enter_bind]
    congr 1
    exact outcome_bind_parsed fun _ => rfl
  · next hnot =>
      rw [readNot, parseNot.eq_def]
      split
      · exact (hnot _ rfl).elim
      · rfl

/-- A comparison is a sum and its links, none of them charged. -/
theorem readComparison_eq
    (depth : Nat) (ts : List TokenKind) :
    readComparison depth ts = (do
      let first ← readChain .sum depth ts
      let links ← readCompared [] first.depth first.rest
      return ⟨compared first.value links.value, links.depth, links.rest⟩) := by
  rw [readComparison, parseComparison]
  refine outcome_bind_parsed fun first => ?_
  unfold readCompared
  rw [outcome_parseCompared _ _ _ (Nat.lt_succ_self _) first.shorter]
  exact outcome_bind_parsed fun _ => rfl

/-- The links of a comparison, one after the other. -/
theorem readCompared_eq
    (acc : List (CompareOp × Expr)) (depth : Nat) (ts : List TokenKind) :
    readCompared acc depth ts =
      match comparison? ts with
      | none => .ok ⟨acc.reverse, depth, ts⟩
      | some (op, rest) => (do
          let right ← readChain .sum depth rest
          readCompared ((op, right.value) :: acc) right.depth right.rest) := by
  unfold readCompared
  rw [parseCompared]
  split
  · next h =>
      rw [h]
      rfl
  · next h =>
      split
      · next hnone => cases h.symm.trans hnone
      · next hsome =>
          cases h.symm.trans hsome
          exact outcome_bind_parsed fun _ => outcome_parseCompared _ _ _ _ _

/-- A minus leaves a node and a plus leaves none; both are a level, given back behind the operand.
-/
theorem readSigned_eq
    (depth : Nat) (ts : List TokenKind) :
    readSigned depth ts =
      match ts with
      | .symbol .minus :: ts => within depth 1 (do
          let inner ← readSigned (depth + 1) ts
          return ⟨negated inner.value, inner.depth - 1, inner.rest⟩)
      | .symbol .plus :: ts => within depth 1 (do
          let inner ← readSigned (depth + 1) ts
          return ⟨inner.value, inner.depth - 1, inner.rest⟩)
      | ts => readSuffixed depth ts := by
  split
  · rw [readSigned, parseSigned.eq_def]
    dsimp only
    rw [outcome_bind, enter_bind]
    congr 1
    exact outcome_bind_parsed fun _ => rfl
  · rw [readSigned, parseSigned.eq_def]
    dsimp only
    rw [outcome_bind, enter_bind]
    congr 1
    exact outcome_bind_parsed fun _ => rfl
  · next hminus hplus =>
      rw [readSigned, parseSigned.eq_def]
      split
      · exact (hminus _ rfl).elim
      · exact (hplus _ rfl).elim
      · rfl

/-- A suffixed phrase is a primary and its suffixes; the depth is that of the start. -/
theorem readSuffixed_eq
    (depth : Nat) (ts : List TokenKind) :
    readSuffixed depth ts = (do
      let first ← readPrimary depth ts
      let all ← readSuffixes first.value first.depth first.rest
      return ⟨all.value, depth, all.rest⟩) := by
  rw [readSuffixed, parseSuffixed]
  refine outcome_bind_parsed fun first => ?_
  unfold readSuffixes
  rw [outcome_parseSuffixes _ _ _ (Nat.lt_succ_self _) first.shorter]
  exact outcome_bind_parsed fun _ => rfl

/-- Behind a closing sign only the tokens left matter. -/
theorem outcome_bind_close
    {α : Type} {n : Nat} {sign : Symbol} {ts : List TokenKind}
    {k : {us : List TokenKind // us.length < ts.length} → Except EvalError (Parsed α n)}
    {k' : List TokenKind → Except EvalError (Read α)}
    (h : ∀ us, outcome (k us) = k' us) :
    outcome (close sign ts >>= k) = readClose sign ts >>= k' := by
  unfold readClose
  rw [outcome_bind]
  cases close sign ts with
  | error e => rfl
  | ok us => exact h us

/-- A field, an index or a call is charged a level, kept for the suffixes behind it. -/
theorem readSuffixes_eq
    (target : Expr) (depth : Nat) (ts : List TokenKind) :
    readSuffixes target depth ts =
      match ts with
      | .symbol .dot :: ts => within depth 1 <|
          match ts with
          | .ident name :: rest => readSuffixes (.field target name) (depth + 1) rest
          | rest => .error (unexpected "attribute name" rest)
      | .symbol .leftBracket :: ts => within depth 1 (do
          let key ← readChain .or (depth + 1) ts
          let rest ← readClose .rightBracket key.rest
          readSuffixes (.index target key.value) key.depth rest)
      | .symbol .leftParen :: ts =>
          match target with
          | .name function => within depth 1 (do
              let args ← readItems .rightParen (depth + 1) ts
              readSuffixes (.call function args.value) args.depth args.rest)
          | target => .error (.notCallable (describeCallee target))
      | ts => .ok ⟨target, depth, ts⟩ := by
  split
  · rw [readSuffixes, parseSuffixes.eq_def]
    dsimp only
    rw [outcome_bind, enter_bind]
    congr 1
    split
    · exact outcome_parseSuffixes _ _ _ _ _
    · next hname =>
        split
        · exact (hname _ _ rfl).elim
        · rfl
  · rw [readSuffixes, parseSuffixes.eq_def]
    dsimp only
    rw [outcome_bind, enter_bind]
    congr 1
    refine outcome_bind_parsed fun key => ?_
    refine outcome_bind_close fun rest => ?_
    exact outcome_parseSuffixes _ _ _ _ _
  · split
    · rw [readSuffixes, parseSuffixes.eq_def]
      dsimp only
      rw [outcome_bind, enter_bind]
      congr 1
      exact outcome_bind_parsed fun args => outcome_parseSuffixes _ _ _ _ _
    · next hname =>
        rw [readSuffixes, parseSuffixes.eq_def]
        dsimp only
        split
        · exact (hname _ rfl).elim
        · rfl
  · next hdot hbracket hparen =>
      rw [readSuffixes, parseSuffixes.eq_def]
      split
      · exact (hdot _ rfl).elim
      · exact (hbracket _ rfl).elim
      · exact (hparen _ rfl).elim
      · rfl

/-- An atom, or a bracketed phrase one level down. -/
theorem readPrimary_eq
    (depth : Nat) (ts : List TokenKind) :
    readPrimary depth ts =
      match ts with
      | .int value :: ts => .ok ⟨.int value, depth, ts⟩
      | .float value :: ts => .ok ⟨.float value, depth, ts⟩
      | .str value :: ts => .ok ⟨.str value, depth, ts⟩
      | .keyword .none :: ts => .ok ⟨.none, depth, ts⟩
      | .keyword .true :: ts => .ok ⟨.bool true, depth, ts⟩
      | .keyword .false :: ts => .ok ⟨.bool false, depth, ts⟩
      | .ident name :: ts => .ok ⟨.name name, depth, ts⟩
      | .symbol .leftParen :: ts => within depth 1 (do
          let inner ← readChain .or (depth + 1) ts
          let rest ← readClose .rightParen inner.rest
          return ⟨inner.value, inner.depth - 1, rest⟩)
      | .symbol .leftBracket :: ts => within depth 1 (do
          let items ← readItems .rightBracket (depth + 1) ts
          return ⟨.list items.value, items.depth - 1, items.rest⟩)
      | ts => .error (unexpected "expression" ts) := by
  split
  · rw [readPrimary, parsePrimary.eq_def]
    rfl
  · rw [readPrimary, parsePrimary.eq_def]
    rfl
  · rw [readPrimary, parsePrimary.eq_def]
    rfl
  · rw [readPrimary, parsePrimary.eq_def]
    rfl
  · rw [readPrimary, parsePrimary.eq_def]
    rfl
  · rw [readPrimary, parsePrimary.eq_def]
    rfl
  · rw [readPrimary, parsePrimary.eq_def]
    rfl
  · rw [readPrimary, parsePrimary.eq_def]
    dsimp only
    rw [outcome_bind, enter_bind]
    congr 1
    refine outcome_bind_parsed fun inner => ?_
    exact outcome_bind_close fun rest => rfl
  · rw [readPrimary, parsePrimary.eq_def]
    dsimp only
    rw [outcome_bind, enter_bind]
    congr 1
    exact outcome_bind_parsed fun items => rfl
  · next hint hfloat hstr hnone htrue hfalse hident hparen hbracket =>
      rw [readPrimary, parsePrimary.eq_def]
      split
      · exact (hint _ _ rfl).elim
      · exact (hfloat _ _ rfl).elim
      · exact (hstr _ _ rfl).elim
      · exact (hnone _ rfl).elim
      · exact (htrue _ rfl).elim
      · exact (hfalse _ rfl).elim
      · exact (hident _ _ rfl).elim
      · exact (hparen _ rfl).elim
      · exact (hbracket _ rfl).elim
      · rfl

theorem readItems_eq
    (sign : Symbol) (depth : Nat) (ts : List TokenKind) :
    readItems sign depth ts =
      match ts with
      | .symbol s :: ts =>
          if s = sign then .ok ⟨[], depth, ts⟩
          else readMore sign [] depth (.symbol s :: ts)
      | ts => readMore sign [] depth ts := by
  split
  · rw [readItems, parseItems.eq_def]
    dsimp only
    split
    · rfl
    · exact outcome_parseMore _ _ _ _ _ _
  · next hsymbol =>
      rw [readItems, parseItems.eq_def]
      split
      · exact (hsymbol _ _ rfl).elim
      · exact outcome_parseMore _ _ _ _ _ _

/-- Behind an item stands the closing sign or a comma, and behind the comma the same or a further
item. -/
theorem readMore_eq
    (sign : Symbol) (acc : List Expr) (depth : Nat) (ts : List TokenKind) :
    readMore sign acc depth ts = (do
      let item ← readChain .or depth ts
      match item.rest with
      | .symbol .comma :: .symbol s :: rest =>
          if s = sign then return ⟨(item.value :: acc).reverse, item.depth, rest⟩
          else readMore sign (item.value :: acc) item.depth (.symbol s :: rest)
      | .symbol .comma :: rest => readMore sign (item.value :: acc) item.depth rest
      | rest => do
          let rest ← readClose sign rest
          return ⟨(item.value :: acc).reverse, item.depth, rest⟩) := by
  unfold readMore
  rw [parseMore.eq_def]
  refine outcome_bind_parsed fun item => ?_
  obtain ⟨value, depth, rest, hshorter⟩ := item
  dsimp only
  split
  · dsimp only
    split
    · rfl
    · exact outcome_parseMore _ _ _ _ _ _
  · next hsymbol =>
      split
      · next heq =>
          cases heq
          exact (hsymbol _ _ rfl).elim
      · next heq =>
          cases heq
          exact outcome_parseMore _ _ _ _ _ _
      · next hcomma => exact (hcomma _ rfl).elim
  · next hsymbol hcomma =>
      split
      · exact (hsymbol _ _ rfl).elim
      · exact (hcomma _ rfl).elim
      · exact outcome_bind_close fun _ => rfl

/-- A parse reads an expression and expects the end behind it. -/
theorem parseKinds_eq
    (kinds : List TokenKind) :
    parseKinds kinds = (do
      let tree ← readChain .or 0 kinds
      match tree.rest with
      | [] | .eof :: _ => return tree.value
      | rest => throw (unexpected "end of expression" rest)) := by
  unfold parseKinds readChain
  cases parseChain .or 0 kinds <;> rfl

theorem readClose_self_bind
    {α : Type}
    (sign : Symbol) (ts : List TokenKind) (k : List TokenKind → Except EvalError α) :
    readClose sign (.symbol sign :: ts) >>= k = k ts := by
  have hclose : readClose sign (.symbol sign :: ts) = .ok ts := by
    simp [readClose, close, Except.map]
  rw [hclose]
  rfl

end Parser
end LiveProbe
