import LiveProbe.Proofs.Expr.Recognition
import LiveProbe.Proofs.Expr.Spelling
import LiveProbe.Proofs.Lists

/-!
# Tokens of joined texts

Commas, parentheses and brackets hold texts apart from each other.

**Specification.**  Characters have tokens wherever they stand (`Lexer.Lexes`): positions
show in faults and in the tokens themselves, and in nothing that is decided.

**Delimiters.**  None of these signs continues a word, a number or another sign.  A token in
front of one is therefore the token that it is at the end of a text (`Lexer.SetApart`).

**Results.**
* `Lexer.seen_scan_append`: a token in front of a delimiter, by the class of the token.
* `Lexer.exists_lexes`, `Lexer.Lexes.tokenize`: the relation is that of the tokenizer.
* `Lexer.Lexes.append`: the tokens of two texts with a delimiter at the seam are those of the
  first and then those of the second.
-/

namespace LiveProbe
namespace Lexer

open Text (isBlank isDigit)

/-! ### Delimiters -/

/-- The sign that is a comma, a parenthesis or a bracket. -/
def delimiter? : Char → Option Symbol
  | ',' => some .comma
  | '(' => some .leftParen
  | ')' => some .rightParen
  | '[' => some .leftBracket
  | ']' => some .rightBracket
  | _ => none

/-- A delimiter follows, or nothing. -/
def SetApart (tail : List Char) : Prop := ∀ d ∈ tail.head?, (delimiter? d).isSome

theorem setApart_nil : SetApart [] := nofun

/-- Text that opens with a delimiter is set apart from what stands before. -/
theorem setApart_cons
    {d : Char} {sign : Symbol}
    (hd : delimiter? d = some sign)
    (more : List Char) :
    SetApart (d :: more) := by
  rintro c hc
  rw [← Option.mem_some_iff.mp hc, hd]
  rfl

theorem mem_delimiters
    {d : Char}
    (h : (delimiter? d).isSome = true) :
    d ∈ [',', '(', ')', '[', ']'] := by
  unfold delimiter? at h
  split at h <;> simp at h ⊢

/-- A test that no delimiter passes fails at the head of such text. -/
theorem SetApart.head?_eq_false
    {p : Char → Bool} {tail : List Char}
    (h : SetApart tail)
    (hp : [',', '(', ')', '[', ']'].any p = false) :
    ∀ d ∈ tail.head?, p d = false :=
  fun d hd => Bool.eq_false_iff.mpr (List.any_eq_false.mp hp d (mem_delimiters (h d hd)))

section Delimiters

variable {cs tail : List Char}

/-- A delimiter is neither a point nor a digit behind one. -/
theorem fraction?_append
    (htail : SetApart tail) :
    fraction? (cs ++ tail) = (fraction? cs).map (· ++ tail) := by
  have hpoint := htail.head?_eq_false (p := (· == '.')) rfl
  have hdigit := htail.head?_eq_false (p := isDigit) rfl
  fun_cases fraction? cs with
  | case1 e cs he => exact if_pos he
  | case2 e cs he => exact if_neg he
  | case3 cs hother =>
      unfold fraction?
      split
      · next e rest heq =>
          match cs with
          | [] =>
              rw [List.nil_append] at heq
              rw [heq] at hpoint
              exact absurd (hpoint '.' rfl) (by decide)
          | [c] =>
              obtain ⟨rfl, rfl⟩ : c = '.' ∧ tail = e :: rest := List.cons.inj heq
              rw [hdigit e rfl]
              rfl
          | c :: e :: cs =>
              cases heq
              exact (hother _ _ rfl).elim
      · rfl

end Delimiters

/-! ### One token -/

/-- What is seen of a token: its kind and the characters behind it. -/
def seen {cs : List Char} (r : Except EvalError (Lexeme cs)) :
    Except EvalError (TokenKind × List Char) :=
  r.map fun lexeme => (lexeme.kind, lexeme.rest)

/-- What is seen of a lexeme is its kind and the text behind it. -/
theorem seen_eq_ok
    {cs rest : List Char} {kind : TokenKind} {r : Except EvalError (Lexeme cs)}
    (h : seen r = .ok (kind, rest)) :
    ∃ lexeme, r = .ok lexeme ∧ lexeme.kind = kind ∧ lexeme.rest = rest := by
  cases r with
  | error e => cases h
  | ok lexeme =>
      cases h
      exact ⟨lexeme, rfl, rfl, rfl⟩

section Scan

variable {c : Char} {cs rest tail : List Char} {kind : TokenKind} {position : Nat}

/-! Numbers -/

theorem seen_scanNumber
    (c : Char) (cs : List Char) :
    seen (scanNumber c cs) =
      match fraction? (cs.dropWhile isNumeralChar) with
      | none =>
          (wholeKind (c :: cs.takeWhile isNumeralChar)).map (·, cs.dropWhile isNumeralChar)
      | some ds =>
          (pointKind (c :: cs.takeWhile isNumeralChar ++ '.' :: ds.takeWhile isNumeralChar)).map
            (·, ds.dropWhile isNumeralChar) := by
  unfold scanNumber
  dsimp only
  split
  · next h =>
      rw [h]
      cases wholeKind (c :: cs.takeWhile isNumeralChar) <;> rfl
  · next ds h =>
      simp only [h]
      cases pointKind (c :: cs.takeWhile isNumeralChar ++ '.' :: ds.takeWhile isNumeralChar) <;> rfl

/-- A numeral is read the same before text that is set apart. -/
theorem seen_scanNumber_append
    (htail : SetApart tail)
    (h : seen (scanNumber c cs) = .ok (kind, rest)) :
    seen (scanNumber c (cs ++ tail)) = .ok (kind, rest ++ tail) := by
  have hstop := htail.head?_eq_false (p := isNumeralChar) rfl
  rw [seen_scanNumber] at h ⊢
  rw [List.takeWhile_append_of_stop hstop, List.dropWhile_append_of_stop hstop,
    fraction?_append htail]
  cases hfraction : fraction? (cs.dropWhile isNumeralChar) with
  | none =>
      rw [hfraction] at h
      cases hkind : wholeKind (c :: cs.takeWhile isNumeralChar) with
      | error e =>
          rw [hkind] at h
          cases h
      | ok k =>
          rw [hkind] at h
          cases h
          rfl
  | some ds =>
      rw [hfraction] at h
      simp only [Option.map_some, List.takeWhile_append_of_stop hstop,
        List.dropWhile_append_of_stop hstop]
      cases hkind : pointKind
          (c :: cs.takeWhile isNumeralChar ++ '.' :: ds.takeWhile isNumeralChar) with
      | error e =>
          simp only [hkind] at h
          cases h
      | ok k =>
          simp only [hkind] at h
          cases h
          rfl

/-! Strings -/

/-- A string literal ends at its closing quote, whatever text follows. -/
theorem scanString_append
    {quote : Char} {value : List Char} {bytes : Nat} {r : String × List Char × Nat}
    (h : scanString quote value bytes cs = some r)
    (tail : List Char) :
    scanString quote value bytes (cs ++ tail) = some (r.1, r.2.1 ++ tail, r.2.2) := by
  fun_induction scanString quote value bytes cs with
  | case1 => cases h
  | case2 =>
      cases h
      rw [List.cons_append, scanString_quote]
  | case3 => cases h
  | case4 _ _ _ _ hquote ih =>
      rw [List.cons_append, List.cons_append, scanString_escaped hquote]
      exact ih h
  | case5 _ _ _ _ hquote hescape ih =>
      rw [List.cons_append, scanString_plain hquote hescape, ih h]

/-! Signs -/

/-- A sign with an equals behind it is read with it. -/
theorem seen_scanSign_compound
    {sign : Symbol}
    (hcompound : withEquals? c = some sign)
    (position : Nat) (cs : List Char) :
    seen (scanSign position c ('=' :: cs)) = .ok (.symbol sign, cs) := by
  rw [scanSign, hcompound]
  rfl

theorem seen_scanSign_plain
    (hplain : ∀ sign rest, withEquals? c = some sign → cs ≠ '=' :: rest)
    (position : Nat) :
    seen (scanSign position c cs) =
      (single? c).elim (.error (.unexpectedChar c position)) fun sign =>
        .ok (.symbol sign, cs) := by
  unfold scanSign
  generalize withEquals? c = compound at hplain ⊢
  split
  · exact (hplain _ _ rfl rfl).elim
  · cases single? c <;> rfl

theorem seen_scanSign_append
    (htail : SetApart tail)
    (h : seen (scanSign position c cs) = .ok (kind, rest))
    (position' : Nat) :
    seen (scanSign position' c (cs ++ tail)) = .ok (kind, rest ++ tail) := by
  by_cases hplain : ∀ sign rest, withEquals? c = some sign → cs ≠ '=' :: rest
  · -- A delimiter is no equals sign either.
    have hplain' : ∀ sign rest, withEquals? c = some sign → cs ++ tail ≠ '=' :: rest := by
      intro sign rest hcompound heq
      cases cs with
      | nil =>
          have hequals := htail.head?_eq_false (p := (· == '=')) rfl
          rw [List.nil_append] at heq
          rw [heq] at hequals
          exact absurd (hequals '=' rfl) (by decide)
      | cons e cs =>
          obtain ⟨rfl, -⟩ := List.cons.inj heq
          exact hplain sign cs hcompound rfl
    rw [seen_scanSign_plain hplain] at h
    rw [seen_scanSign_plain hplain']
    cases hsingle : single? c with
    | none =>
        rw [hsingle] at h
        cases h
    | some sign =>
        rw [hsingle] at h
        cases h
        rfl
  · push Not at hplain
    obtain ⟨sign, behind, hcompound, rfl⟩ := hplain
    rw [seen_scanSign_compound hcompound] at h
    cases h
    rw [List.cons_append, seen_scanSign_compound hcompound]

/-- A token stays what it is in front of a delimiter, and wherever it begins. -/
theorem seen_scan_append
    (htail : SetApart tail)
    (h : seen (scan position c cs) = .ok (kind, rest))
    (position' : Nat) :
    seen (scan position' c (cs ++ tail)) = .ok (kind, rest ++ tail) := by
  have hstop := htail.head?_eq_false (p := isWordChar) rfl
  unfold scan at h ⊢
  by_cases hstart : isWordStart c = true
  · rw [if_pos hstart] at h ⊢
    cases h
    simp only [List.takeWhile_append_of_stop hstop, List.dropWhile_append_of_stop hstop]
    rfl
  rw [if_neg hstart] at h ⊢
  by_cases hdigit : isDigit c = true
  · rw [if_pos hdigit] at h ⊢
    exact seen_scanNumber_append htail h
  rw [if_neg hdigit] at h ⊢
  by_cases hquote : (c = '"' || c = '\'') = true
  · rw [if_pos hquote] at h ⊢
    split at h
    · cases h
    · next hstring =>
        cases h
        have happend := scanString_append hstring tail
        split
        · next hnone => cases happend.symm.trans hnone
        · next hsome =>
            cases happend.symm.trans hsome
            rfl
  · rw [if_neg hquote] at h ⊢
    exact seen_scanSign_append htail h position'

end Scan

/-! ### All tokens -/

/-- The characters have the tokens, wherever they stand. -/
inductive Lexes : List Char → List TokenKind → Prop
  | nil : Lexes [] []
  | blank {c : Char} {cs : List Char} {kinds : List TokenKind} :
      isBlank c = true →
      Lexes cs kinds →
      Lexes (c :: cs) kinds
  | token {c : Char} {cs rest : List Char} {kind : TokenKind} {kinds : List TokenKind} :
      isBlank c = false →
      (∀ position, seen (scan position c cs) = .ok (kind, rest)) →
      Lexes rest kinds →
      Lexes (c :: cs) (kind :: kinds)

/-- A completed scan spells out the kinds of its tokens. -/
theorem exists_lexes_of_tokensFrom
    {acc : List Token} {position : Nat} {cs : List Char} {tokens : List Token}
    (h : tokensFrom acc position cs = .ok tokens) :
    ∃ kinds, Lexes cs kinds ∧
      tokens.map Token.kind = (acc.map Token.kind).reverse ++ kinds ++ [.eof] := by
  fun_induction tokensFrom acc position cs with
  | case1 acc position =>
      cases h
      exact ⟨[], .nil, by simp⟩
  | case2 _ _ _ _ hblank ih =>
      obtain ⟨kinds, hlexes, htokens⟩ := ih h
      exact ⟨kinds, .blank hblank hlexes, htokens⟩
  | case3 => cases h
  | case4 _ _ c cs hblank lexeme hscan ih =>
      obtain ⟨kinds, hlexes, htokens⟩ := ih h
      have hseen (position : Nat) : seen (scan position c cs) = .ok (lexeme.kind, lexeme.rest) := by
        have happend := seen_scan_append setApart_nil
          (by rw [hscan]; rfl : seen (scan _ c cs) = .ok (lexeme.kind, lexeme.rest)) position
        rwa [List.append_nil, List.append_nil] at happend
      refine ⟨lexeme.kind :: kinds, .token (by simpa using hblank) hseen hlexes, ?_⟩
      rw [htokens]
      simp

/-- A text that has tokens has them anywhere. -/
theorem exists_lexes
    {source : String} {tokens : List Token}
    (h : tokenize source = .ok tokens) :
    ∃ kinds, Lexes source.toList kinds ∧ tokens.map Token.kind = kinds ++ [.eof] :=
  exists_lexes_of_tokensFrom h

namespace Lexes

variable {cs : List Char} {kinds : List TokenKind}

theorem tokensFrom
    (h : Lexes cs kinds)
    (acc : List Token) (position : Nat) :
    ∃ tokens, Lexer.tokensFrom acc position cs = .ok tokens ∧
      tokens.map Token.kind = (acc.map Token.kind).reverse ++ kinds ++ [.eof] := by
  induction h generalizing acc position with
  | nil =>
      refine ⟨_, by rw [Lexer.tokensFrom], ?_⟩
      simp
  | @blank c cs kinds hblank _ ih =>
      obtain ⟨tokens, htokens, hkinds⟩ := ih acc (position + c.utf8Size)
      refine ⟨tokens, ?_, hkinds⟩
      rw [Lexer.tokensFrom, if_pos hblank, htokens]
  | @token c cs rest kind kinds hblank hseen _ ih =>
      obtain ⟨lexeme, hscan, rfl, rfl⟩ := seen_eq_ok (hseen position)
      obtain ⟨tokens, htokens, hkinds⟩ :=
        ih (⟨lexeme.kind, position⟩ :: acc) (position + lexeme.bytes)
      refine ⟨tokens, by rw [tokensFrom_scan hblank hscan, htokens], ?_⟩
      rw [hkinds]
      simp

theorem tokenize
    {source : String}
    (h : Lexes source.toList kinds) :
    ∃ tokens, Lexer.tokenize source = .ok tokens ∧
      tokens.map Token.kind = kinds ++ [.eof] :=
  h.tokensFrom [] 0

theorem eof_notMem
    (h : Lexes cs kinds) :
    .eof ∉ kinds := by
  induction h with
  | nil => exact List.not_mem_nil
  | blank _ _ ih => exact ih
  | token _ hseen _ ih =>
      obtain ⟨lexeme, hscan, rfl, -⟩ := seen_eq_ok (hseen 0)
      rw [List.mem_cons, not_or]
      exact ⟨(scan_kind_ne_eof hscan).symm, ih⟩

/-- Tokens in front of a delimiter stay what they are. -/
theorem append
    {tail : List Char} {others : List TokenKind}
    (h : Lexes cs kinds)
    (htail : SetApart tail)
    (hothers : Lexes tail others) :
    Lexes (cs ++ tail) (kinds ++ others) := by
  induction h with
  | nil => exact hothers
  | blank hblank _ ih => exact .blank hblank ih
  | token hblank hseen _ ih =>
      exact .token hblank (fun position => seen_scan_append htail (hseen position) position) ih

/-- A delimiter is a token of its own. -/
theorem delimiter
    {d : Char} {sign : Symbol}
    (hd : delimiter? d = some sign)
    (h : Lexes cs kinds) :
    Lexes (d :: cs) (.symbol sign :: kinds) := by
  have hscan : isBlank d = false ∧
      ∀ position, seen (scan position d cs) = .ok (.symbol sign, cs) := by
    unfold delimiter? at hd
    split at hd <;> cases hd <;> exact ⟨rfl, fun position => rfl⟩
  exact .token hscan.1 hscan.2 h

/-- A name is a token of its own. -/
theorem name
    {name : String}
    (hname : IsIdentifier name) :
    Lexes name.toList [.ident name] := by
  obtain ⟨c, cs, htext, hblank, hscan⟩ := readsAs_ident hname
  have hseen (position : Nat) : seen (scan position c cs) = .ok (.ident name, []) := by
    obtain ⟨lexeme, hlexeme, hkind, hrest, -⟩ := hscan position [] stops_nil
    have hend : seen (scan position c (cs ++ [])) = .ok (.ident name, []) := by
      rw [hlexeme, seen, Except.map, hkind, hrest]
    rwa [List.append_nil] at hend
  rw [htext]
  exact .token hblank hseen .nil

end Lexes
end Lexer
end LiveProbe
