import LiveProbe.Proofs.Expr.Accepting
import LiveProbe.Proofs.Expr.Deriving

/-!
# The parser accepts its grammar

For a text that has tokens, the parser and the grammar agree.

**End.**  Tokens of a text are closed by the end token, which occurs nowhere else, so that
the grammar speaks of all the others.

**Callees.**  The grammar in which only names in parentheses are called is too narrow: a
plus sign leaves no node either, and what is called is told by its tree alone.

**Results.**
* `Lexer.tokenize_eq_append`: the end token stands at the end.
* `Parser.parse_recognizes`: a derived text gives its tree or is too deep, a short one is
  never too deep, and a text that is not derived gives a fault.
-/

namespace LiveProbe

/-! ### The end of a text -/

namespace Lexer

theorem map_kind_scanSign_ne_eof
    (position : Nat) (c : Char) (cs : List Char) :
    (scanSign position c cs).map Lexeme.kind ≠ .ok .eof := by
  unfold scanSign
  generalize withEquals? c = compound
  cases single? c <;> split <;> simp [Except.map]

theorem scanNumber_kind_ne_eof
    {c : Char} {cs : List Char} {lexeme : Lexeme (c :: cs)}
    (h : scanNumber c cs = .ok lexeme) :
    lexeme.kind ≠ .eof := by
  have hwhole {ds : List Char} {kind : TokenKind} (hk : wholeKind ds = .ok kind) :
      kind ≠ .eof := by
    unfold wholeKind at hk
    dsimp only at hk
    split at hk
    · cases hk
      exact TokenKind.noConfusion
    · cases hk
  have hpoint {ds : List Char} {kind : TokenKind} (hk : pointKind ds = .ok kind) :
      kind ≠ .eof := by
    unfold pointKind at hk
    dsimp only at hk
    split at hk
    · cases hk
      exact TokenKind.noConfusion
    · cases hk
  unfold scanNumber at h
  dsimp only at h
  split at h
  · obtain ⟨kind, hkind, hvalue⟩ := Parser.bind_eq_ok h
    cases hvalue
    exact hwhole hkind
  · obtain ⟨kind, hkind, hvalue⟩ := Parser.bind_eq_ok h
    cases hvalue
    exact hpoint hkind

theorem scan_kind_ne_eof
    {position : Nat} {c : Char} {cs : List Char} {lexeme : Lexeme (c :: cs)}
    (h : scan position c cs = .ok lexeme) :
    lexeme.kind ≠ .eof := by
  unfold scan at h
  split at h
  · cases h
    unfold wordKind
    dsimp only
    split <;> exact TokenKind.noConfusion
  · split at h
    · exact scanNumber_kind_ne_eof h
    · split at h
      · split at h
        · cases h
        · cases h
          exact TokenKind.noConfusion
      · intro hkind
        apply map_kind_scanSign_ne_eof position c cs
        rw [h, ← hkind]
        rfl

theorem tokensFrom_eq_append
    {acc : List Token} {position : Nat} {cs : List Char} {tokens : List Token}
    (hacc : .eof ∉ acc.map Token.kind)
    (h : tokensFrom acc position cs = .ok tokens) :
    ∃ kinds, tokens.map Token.kind = kinds ++ [.eof] ∧ .eof ∉ kinds := by
  fun_induction tokensFrom acc position cs with
  | case1 acc position =>
      cases h
      refine ⟨(acc.map Token.kind).reverse, ?_, ?_⟩
      · simp
      · rwa [List.mem_reverse]
  | case2 _ _ _ _ _ ih => exact ih hacc h
  | case3 => cases h
  | case4 _ _ _ _ _ lexeme hscan ih =>
      refine ih ?_ h
      rw [List.map_cons, List.mem_cons, not_or]
      exact ⟨(scan_kind_ne_eof hscan).symm, hacc⟩

theorem tokenize_eq_append
    {source : String} {tokens : List Token}
    (h : tokenize source = .ok tokens) :
    ∃ kinds, tokens.map Token.kind = kinds ++ [.eof] ∧ .eof ∉ kinds :=
  tokensFrom_eq_append List.not_mem_nil h

end Lexer

/-! ### Callees -/

namespace Derivation

variable {callable : List TokenKind → Prop} {p : Phrase} {ts : List TokenKind} {e : Expr}

/-- What stands in front of a call leaves no node. -/
theorem exists_callee
    (D : Derivation callable p ts e)
    {function : String} {args : List Expr}
    (he : e = .call function args) :
    ∃ opening callee rest, ts = opening ++ (callee ++ .symbol .leftParen :: rest) ∧
      callable callee ∧ ∀ t ∈ opening, t = .symbol .leftParen ∨ t = .symbol .plus := by
  induction D with
  | operand _ ih => exact ih he
  | @link k op join _ _ _ _ _ hop hjoin _ _ _ _ =>
      subst hjoin
      unfold Parser.Chain.join? at hop
      split at hop <;> cases hop <;> cases he
  | not _ _ => cases he
  | positive _ ih => exact ih he
  | sum _ ih => exact ih he
  | linked _ ih => exact ih he
  | first _ _ _ _ => cases he
  | further _ _ _ _ => cases he
  | minus _ _ =>
      unfold Parser.negated at he
      split at he <;> cases he
  | plus _ ih =>
      obtain ⟨opening, callee, rest, rfl, hcallee, hopening⟩ := ih he
      refine ⟨.symbol .plus :: opening, callee, rest, rfl, hcallee, ?_⟩
      simpa using hopening
  | unsigned _ ih => exact ih he
  | unsuffixed _ ih => exact ih he
  | field _ _ => cases he
  | index _ _ _ _ => cases he
  | @call ts us _ _ _ hcallable _ _ _ =>
      exact ⟨[], ts, us ++ [.symbol .rightParen], rfl, hcallable, by simp⟩
  | atom ht =>
      subst he
      unfold TokenKind.atom? at ht
      split at ht <;> cases ht
  | parens _ ih =>
      obtain ⟨opening, callee, rest, rfl, hcallee, hopening⟩ := ih he
      refine ⟨.symbol .leftParen :: opening, callee, rest ++ [.symbol .rightParen], ?_, hcallee, ?_⟩
      · simp
      · simpa using hopening
  | list _ _ => cases he
  | nothing => cases he
  | listed _ ih => exact ih he
  | last _ _ => cases he
  | lastComma _ _ => cases he
  | more _ _ _ _ => cases he

/-- A signed phrase is an expression. -/
def ofSigned (d : Derivation callable .signed ts e) : Derivation callable (.chain .or) ts e :=
  .operand (.operand (.positive (.sum (.operand (.operand d)))))

/-- A primary is an expression. -/
def ofPrimary (d : Derivation callable .primary ts e) : Derivation callable (.chain .or) ts e :=
  (Derivation.unsigned (.unsuffixed d)).ofSigned

end Derivation

/-! ### Recognition -/

namespace Parser

/-- The parser gives the trees of the grammar to the texts of the grammar. -/
theorem parse_recognizes
    {source : String} {tokens : List Token}
    (hlex : Lexer.tokenize source = .ok tokens) :
    ∃ kinds, tokens.map Token.kind = kinds ++ [.eof] ∧ .eof ∉ kinds ∧
      (∀ e, Derives anyTokens (.chain .or) kinds e →
        parse source = .ok e ∨ parse source = .error (.tooDeep Limits.expressionDepth)) ∧
      (∀ e, Derives anyTokens (.chain .or) kinds e →
        kinds.length ≤ Limits.expressionDepth → parse source = .ok e) ∧
      ((¬ ∃ e, Derives anyTokens (.chain .or) kinds e) →
        ∃ fault, parse source = .error fault) := by
  obtain ⟨kinds, hkinds, heof⟩ := Lexer.tokenize_eq_append hlex
  have hparse : parse source = parseKinds (kinds ++ [.eof]) := by
    unfold parse
    rw [hlex, ← hkinds]
    rfl
  refine ⟨kinds, hkinds, heof, ?_, ?_, ?_⟩
  · rintro e ⟨D⟩
    rw [hparse, parseKinds_of_derivation D]
    unfold within
    split
    · exact .inl rfl
    · exact .inr rfl
  · rintro e ⟨D⟩ hshort
    have hlevels := D.levels_le_length
    rw [hparse, parseKinds_of_derivation D]
    exact if_pos (by omega)
  · intro hnone
    cases he : parse source with
    | error fault => exact ⟨fault, rfl⟩
    | ok e =>
        rw [hparse] at he
        obtain ⟨D, -⟩ := exists_derivation_of_parseKinds heof he
        exact (hnone ⟨e, ⟨D⟩⟩).elim

/-! A plus sign leaves no node, so that a name behind one is called as well. -/

/-- The tokens of `(+f)(x)` in front of the end. -/
def signedCall : List TokenKind :=
  [.symbol .leftParen, .symbol .plus, .ident "f", .symbol .rightParen,
    .symbol .leftParen, .ident "x", .symbol .rightParen]

theorem tokenize_signedCall :
    ∃ tokens, Lexer.tokenize "(+f)(x)" = .ok tokens ∧
      tokens.map Token.kind = signedCall ++ [.eof] := by
  refine ⟨[⟨.symbol .leftParen, 0⟩, ⟨.symbol .plus, 1⟩, ⟨.ident "f", 2⟩, ⟨.symbol .rightParen, 3⟩,
    ⟨.symbol .leftParen, 4⟩, ⟨.ident "x", 5⟩, ⟨.symbol .rightParen, 6⟩, ⟨.eof, 7⟩], ?_, rfl⟩
  cbv

/-- The phrase that is called is `(+f)`. -/
def signedCall_derivation :
    Derivation anyTokens (.chain .or) signedCall (.call "f" [.name "x"]) :=
  have callee : Derivation anyTokens .signed [.symbol .plus, .ident "f"] (.name "f") :=
    .plus (.unsigned (.unsuffixed (.atom rfl)))
  have args : Derivation anyTokens .items [.ident "x"] (.list [.name "x"]) :=
    .listed (.last (.ofPrimary (.atom rfl)))
  .ofSigned (.unsigned (.call (.unsuffixed (.parens (.ofSigned callee))) trivial args))

theorem parseKinds_signedCall :
    parseKinds (signedCall ++ [.eof]) = .ok (.call "f" [.name "x"]) := by
  have hlevels := signedCall_derivation.levels_le_length
  rw [parseKinds_of_derivation signedCall_derivation]
  refine if_pos ?_
  rw [Nat.zero_add]
  exact Nat.le_trans hlevels (by decide)

/-- A source that is tokenized and parsed, its callee in brackets under a plus. -/
theorem parse_recognizes_signedCall :
    ∃ tokens, Lexer.tokenize "(+f)(x)" = .ok tokens ∧
      parse "(+f)(x)" = .ok (.call "f" [.name "x"]) := by
  obtain ⟨tokens, hlex, htokens⟩ := tokenize_signedCall
  obtain ⟨kinds, hkinds, -, -, hshort, -⟩ := parse_recognizes hlex
  obtain rfl : signedCall = kinds := List.append_cancel_right (htokens.symm.trans hkinds)
  exact ⟨tokens, hlex, hshort _ ⟨signedCall_derivation⟩ (by decide)⟩

/-- With nothing but names in parentheses to be called, there is no tree. -/
theorem signedCall_not_derives :
    ¬ ∃ e, Derives IsBareName (.chain .or) signedCall e := by
  rintro ⟨e, ⟨D⟩⟩
  have hstrict := parseKinds_of_derivation D
  rw [parseKinds_signedCall] at hstrict
  have he : .call "f" [.name "x"] = e := (Except.ok.inj (within_eq_ok hstrict.symm).2).symm
  obtain ⟨opening, callee, rest, hts, hcallee, hopening⟩ := D.exists_callee he.symm
  -- Up to two tokens stand in front of the callee, none of which leaves it a name.
  match opening with
  | [] =>
      cases hcallee with
      | name _ => cases hts
      | parens hinner =>
          cases hinner <;> cases hts
  | [_] =>
      cases hcallee <;> cases hts
  | [_, _] =>
      cases hcallee <;> cases hts
  | _ :: _ :: t :: _ =>
      simp only [signedCall, List.cons_append, List.cons.injEq] at hts
      obtain ⟨-, -, rfl, -⟩ := hts
      simp at hopening

/-- The grammar with bare callees does not derive what is parsed here. -/
theorem parse_accepts_signedCall :
    ∃ tokens kinds, Lexer.tokenize "(+f)(x)" = .ok tokens ∧
      tokens.map Token.kind = kinds ++ [.eof] ∧
      (¬ ∃ e, Derives IsBareName (.chain .or) kinds e) ∧
      parse "(+f)(x)" = .ok (.call "f" [.name "x"]) := by
  obtain ⟨tokens, hlex, htokens⟩ := tokenize_signedCall
  have hparse : parse "(+f)(x)" = parseKinds (tokens.map Token.kind) := by
    rw [parse, hlex]
    rfl
  rw [htokens, parseKinds_signedCall] at hparse
  exact ⟨tokens, signedCall, hlex, htokens, signedCall_not_derives, hparse⟩

end Parser
end LiveProbe
