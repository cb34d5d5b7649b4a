import Mathlib.Data.List.Forall2
import LiveProbe.Proofs.Expr.Joining

/-!
# Siblings

The items of a list and the arguments of a call do not count against one another.

**Depth.**  Whatever is read leaves as many levels entered as there were before it
(`Restores`).  Chains and suffixes return to the depth at which they began; signs, negations,
parentheses and lists leave the one level that they entered; comparisons and items enter
none.

**Siblings.**  A text that is an expression of its own has a derivation, and derivations side
by side need the largest of their levels.  What stands around them adds to that and has needs
of its own, however many siblings there are (`Encloses`).

**Callees.**  Whatever text is a name may be called.  Signs in front of it are then in front
of the call, where they are levels around the arguments.

**Results.**
* `readNot_restores` and its companions: the depth behind each function of the parser.
* `encloses_listText`, `encloses_callText`: a list and a call by the levels of their elements.
* `siblings_charged_alone`: elements stand together exactly if each of them stands alone.
-/

namespace LiveProbe

open LiveProbe.Parser

/-! ### Depth -/

namespace Parser

section Depth

variable {depth : Nat} {ts : List TokenKind}

/-- A reading leaves as many levels entered as there were. -/
def Restores {α : Type} {n : Nat} (depth : Nat) (r : Except EvalError (Parsed α n)) : Prop :=
  ∀ x, r = .ok x → x.depth = depth

/-- Restoring the depth is a property of what is read. -/
theorem restores_of_outcome
    {α : Type} {n : Nat} {r : Except EvalError (Parsed α n)}
    (h : ∀ x, outcome r = .ok x → x.depth = depth) :
    Restores depth r := by
  rintro x rfl
  exact h _ rfl

theorem readChain_restores
    {k : Chain} {x : Read Expr}
    (h : readChain k depth ts = .ok x) :
    x.depth = depth := by
  rw [readChain_eq] at h
  obtain ⟨_, -, h⟩ := bind_eq_ok h
  obtain ⟨_, -, h⟩ := bind_eq_ok h
  cases h
  rfl

theorem readSuffixed_restores
    {x : Read Expr}
    (h : readSuffixed depth ts = .ok x) :
    x.depth = depth := by
  rw [readSuffixed_eq] at h
  obtain ⟨_, -, h⟩ := bind_eq_ok h
  obtain ⟨_, -, h⟩ := bind_eq_ok h
  cases h
  rfl

/-- The operands of a comparison are chains, each of which returns to the depth. -/
theorem readCompared_restores
    {acc : List (CompareOp × Expr)} {x : Read (List (CompareOp × Expr))}
    (h : readCompared acc depth ts = .ok x) :
    x.depth = depth := by
  induction hl : ts.length using Nat.strongRecOn generalizing ts acc with
  | ind l ih =>
      subst hl
      rw [readCompared_eq] at h
      split at h
      · cases h
        rfl
      · next op rest hop =>
          obtain ⟨right, hright, h⟩ := bind_eq_ok h
          rw [readChain_restores hright] at h
          have hshorter : right.rest.length < rest.length := length_rest_lt hright
          exact ih right.rest.length (Nat.lt_trans hshorter (comparison?_length hop)) h rfl

/-- A comparison takes none but those of its sums. -/
theorem readComparison_restores
    {x : Read Expr}
    (h : readComparison depth ts = .ok x) :
    x.depth = depth := by
  rw [readComparison_eq] at h
  obtain ⟨first, hfirst, h⟩ := bind_eq_ok h
  rw [readChain_restores hfirst] at h
  obtain ⟨links, hlinks, h⟩ := bind_eq_ok h
  cases h
  exact readCompared_restores hlinks

/-- A negation gives back its own level and those of its operand. -/
theorem readNot_restores
    {x : Read Expr}
    (h : readNot depth ts = .ok x) :
    x.depth = depth := by
  induction ts generalizing depth x with
  | nil => exact readComparison_restores (readNot_eq depth [] ▸ h)
  | cons t ts ih =>
      rw [readNot_eq] at h
      split at h
      · next heq =>
          cases heq
          obtain ⟨inner, hinner, h⟩ := bind_eq_ok (within_eq_ok h).2
          cases h
          rw [ih hinner, Nat.add_sub_cancel]
      · exact readComparison_restores h

theorem readSigned_restores
    {x : Read Expr}
    (h : readSigned depth ts = .ok x) :
    x.depth = depth := by
  induction ts generalizing depth x with
  | nil => exact readSuffixed_restores (readSigned_eq depth [] ▸ h)
  | cons t ts ih =>
      rw [readSigned_eq] at h
      split at h
      · next heq =>
          cases heq
          obtain ⟨inner, hinner, h⟩ := bind_eq_ok (within_eq_ok h).2
          cases h
          rw [ih hinner, Nat.add_sub_cancel]
      · next heq =>
          cases heq
          obtain ⟨inner, hinner, h⟩ := bind_eq_ok (within_eq_ok h).2
          cases h
          rw [ih hinner, Nat.add_sub_cancel]
      · exact readSuffixed_restores h

theorem readOperand_restores
    {k : Chain} {x : Read Expr}
    (h : readOperand k depth ts = .ok x) :
    x.depth = depth := by
  rw [readOperand_eq] at h
  cases k with
  | or => exact readChain_restores h
  | and => exact readNot_restores h
  | sum => exact readChain_restores h
  | product => exact readSigned_restores h

/-- The items of a row give back their levels one by one, so the next item starts where the first
did. -/
theorem readMore_restores
    {sign : Symbol} {acc : List Expr} {x : Read (List Expr)}
    (h : readMore sign acc depth ts = .ok x) :
    x.depth = depth := by
  induction hl : ts.length using Nat.strongRecOn generalizing ts acc with
  | ind l ih =>
      subst hl
      rw [readMore_eq] at h
      obtain ⟨item, hitem, h⟩ := bind_eq_ok h
      have hshorter : item.rest.length < ts.length := length_rest_lt hitem
      rw [readChain_restores hitem] at h
      split at h
      · next hrest =>
          split at h
          · cases h
            rfl
          · rw [hrest, List.length_cons] at hshorter
            exact ih _ (by omega) h rfl
      · next hrest =>
          rw [hrest, List.length_cons] at hshorter
          exact ih _ (by omega) h rfl
      · obtain ⟨_, -, h⟩ := bind_eq_ok h
        cases h
        rfl

theorem readItems_restores
    {sign : Symbol} {x : Read (List Expr)}
    (h : readItems sign depth ts = .ok x) :
    x.depth = depth := by
  rw [readItems_eq] at h
  split at h
  · split at h
    · cases h
      rfl
    · exact readMore_restores h
  · exact readMore_restores h

theorem readPrimary_restores
    {x : Read Expr}
    (h : readPrimary depth ts = .ok x) :
    x.depth = depth := by
  rw [readPrimary_eq] at h
  split at h
  case h_8 =>
    obtain ⟨inner, hinner, h⟩ := bind_eq_ok (within_eq_ok h).2
    obtain ⟨_, -, h⟩ := bind_eq_ok h
    cases h
    rw [readChain_restores hinner, Nat.add_sub_cancel]
  case h_9 =>
    obtain ⟨items, hitems, h⟩ := bind_eq_ok (within_eq_ok h).2
    cases h
    rw [readItems_restores hitems, Nat.add_sub_cancel]
  all_goals
    cases h
    try rfl

end Depth

/-! ### Siblings -/

/-- A source that derives a tree is parsed to it within the limit, at the levels of the
derivation. -/
theorem parse_of_derivation
    {callable : List TokenKind → Prop} {source : String} {kinds : List TokenKind} {e : Expr}
    (h : Lexer.Lexes source.toList kinds)
    (D : Derivation callable (.chain .or) kinds e) :
    parse source = within 0 D.levels (.ok e) := by
  obtain ⟨tokens, hlex, hkinds⟩ := h.tokenize
  have hparse : parse source = parseKinds (tokens.map Token.kind) := by
    rw [parse, hlex]
    rfl
  rw [hparse, hkinds, parseKinds_of_derivation D]

theorem exists_derivation
    {source : String} {e : Expr}
    (h : parse source = .ok e) :
    ∃ kinds, Lexer.Lexes source.toList kinds ∧
      Nonempty (Derivation anyTokens (.chain .or) kinds e) := by
  obtain ⟨tokens, hlex, htree⟩ := bind_eq_ok h
  obtain ⟨kinds, hkinds, htokens⟩ := Lexer.exists_lexes hlex
  rw [htokens] at htree
  obtain ⟨D, -⟩ := exists_derivation_of_parseKinds hkinds.eof_notMem htree
  exact ⟨kinds, hkinds, ⟨D⟩⟩

/-- A text that is an expression of its own, and why it is. -/
structure Sibling where
  source : String
  tree : Expr
  kinds : List TokenKind
  lexes : Lexer.Lexes source.toList kinds
  derivation : Derivation anyTokens (.chain .or) kinds tree

namespace Sibling

/-- The levels that reading the expression takes. -/
def levels (x : Sibling) : Nat := x.derivation.levels

/-- The tokens of at least one expression, with commas between them. -/
def joined (x : Sibling) : List Sibling → List TokenKind
  | [] => x.kinds
  | y :: ys => x.kinds ++ .symbol .comma :: joined y ys

/-- Siblings joined by commas are spelled one after the other. -/
theorem lexes_joined
    (x : Sibling) (ys : List Sibling) :
    Lexer.Lexes (",".intercalate ((x :: ys).map source)).toList (x.joined ys) := by
  induction ys generalizing x with
  | nil =>
      rw [List.map_singleton, String.intercalate_singleton]
      exact x.lexes
  | cons y ys ih =>
      rw [List.map_cons, List.map_cons, String.intercalate_cons_cons, ← List.map_cons,
        String.toList_append, String.toList_append, List.append_assoc]
      exact x.lexes.append (Lexer.setApart_cons rfl _) (.delimiter rfl (ih y))

/-- Expressions side by side are items. -/
def listed (x : Sibling) : (ys : List Sibling) →
    Derivation anyTokens .listed (x.joined ys) (.list ((x :: ys).map tree))
  | [] => .last x.derivation
  | y :: ys => .more x.derivation (listed y ys)

/-- The levels around items suffice for all of them if they suffice for each of them. -/
theorem levels_listed_le_iff
    (x : Sibling) (ys : List Sibling) (own around limit : Nat) :
    max own (around + (x.listed ys).levels) ≤ limit ↔
      ∀ y ∈ x :: ys, max own (around + y.levels) ≤ limit := by
  induction ys generalizing x with
  | nil =>
      have hlevels : (x.listed []).levels = x.levels := rfl
      rw [hlevels, List.forall_mem_singleton]
  | cons y ys ih =>
      have hlevels : (x.listed (y :: ys)).levels = max x.levels (y.listed ys).levels := rfl
      rw [hlevels, List.forall_mem_cons, ← ih]
      omega

end Sibling

theorem exists_siblings
    {sources : List String} {trees : List Expr}
    (h : List.Forall₂ (fun source tree => parse source = .ok tree) sources trees) :
    ∃ xs : List Sibling, xs.map Sibling.source = sources ∧ xs.map Sibling.tree = trees := by
  induction h with
  | nil => exact ⟨[], rfl, rfl⟩
  | @cons source tree _ _ hparse _ ih =>
      obtain ⟨kinds, hlex, ⟨D⟩⟩ := exists_derivation hparse
      obtain ⟨xs, rfl, rfl⟩ := ih
      exact ⟨⟨source, tree, kinds, hlex, D⟩ :: xs, rfl, rfl⟩

/-! ### Texts around siblings -/

/-- The expressions in brackets, with commas between them. -/
def listText (sources : List String) : String := "[" ++ ",".intercalate sources ++ "]"

/-- The expressions in parentheses behind a text that is called, with commas between them. -/
def callText (callee : String) (sources : List String) : String :=
  callee ++ "(" ++ ",".intercalate sources ++ ")"

/-- Expressions stand together in the text exactly if each of them stands in it alone.  They
keep their trees and their order, and no fault but nesting keeps them out. -/
def ChargedAlone (text : List String → String) (tree : List Expr → Expr) : Prop :=
  ∀ (sources : List String) (trees : List Expr), sources ≠ [] →
    List.Forall₂ (fun source t => parse source = .ok t) sources trees →
    ((∃ e, parse (text sources) = .ok e) ↔
      ∀ source ∈ sources, ∃ e, parse (text [source]) = .ok e) ∧
    (∀ e, parse (text sources) = .ok e → e = tree trees) ∧
    (∀ fault, parse (text sources) = .error fault → fault = .tooDeep Limits.expressionDepth)

/-- The text takes levels of its own, and levels around siblings. -/
def Encloses (text : List String → String) (tree : List Expr → Expr) : Prop :=
  ∃ own around : Nat, ∀ (x : Sibling) (ys : List Sibling),
    parse (text ((x :: ys).map Sibling.source)) =
      within 0 (max own (around + (x.listed ys).levels)) (.ok (tree ((x :: ys).map Sibling.tree)))

section Within

variable {need : Nat} {tree : Expr}

/-- What is wanted is given exactly where its levels are within the limit. -/
theorem exists_within_iff :
    (∃ e, within 0 need (.ok tree) = .ok e) ↔ need ≤ Limits.expressionDepth := by
  rw [within, Nat.zero_add]
  split
  · next h => exact iff_of_true ⟨tree, rfl⟩ h
  · next h => exact iff_of_false nofun h

theorem within_eq_error
    {fault : EvalError}
    (h : within 0 need (.ok tree) = .error fault) :
    fault = .tooDeep Limits.expressionDepth := by
  rw [within] at h
  split at h <;> cases h
  rfl

end Within

/-- An enclosing form that charges each sibling for itself parses exactly where it does around
each of them alone. -/
theorem Encloses.chargedAlone
    {text : List String → String} {tree : List Expr → Expr}
    (h : Encloses text tree) :
    ChargedAlone text tree := by
  intro sources trees hne htrees
  obtain ⟨own, around, hparse⟩ := h
  obtain ⟨xs, rfl, rfl⟩ := exists_siblings htrees
  cases xs with
  | nil => exact absurd rfl hne
  | cons x ys =>
      have halone (y : Sibling) :
          (∃ e, parse (text [y.source]) = .ok e) ↔
            max own (around + y.levels) ≤ Limits.expressionDepth := by
        have hone := hparse y []
        rw [List.map_singleton] at hone
        rw [hone]
        exact exists_within_iff
      refine ⟨?_, ?_, ?_⟩
      · rw [hparse, exists_within_iff, Sibling.levels_listed_le_iff]
        simp only [List.forall_mem_map, halone]
      · intro e he
        rw [hparse] at he
        exact (Except.ok.inj (within_eq_ok he).2).symm
      · intro fault hfault
        rw [hparse] at hfault
        exact within_eq_error hfault

theorem lexes_listText
    (x : Sibling) (ys : List Sibling) :
    Lexer.Lexes (listText ((x :: ys).map Sibling.source)).toList
      (.symbol .leftBracket :: (x.joined ys ++ [.symbol .rightBracket])) := by
  rw [listText, String.toList_append, String.toList_append, List.append_assoc]
  exact .delimiter rfl ((x.lexes_joined ys).append (Lexer.setApart_cons rfl _)
    (.delimiter rfl .nil))

/-- A list charges one level around its items, and each item for itself. -/
theorem encloses_listText : Encloses listText .list := by
  refine ⟨0, 1, fun x ys => ?_⟩
  rw [parse_of_derivation (lexes_listText x ys) (.ofPrimary (.list (.listed (x.listed ys)))),
    Nat.zero_max, Nat.add_comm]
  rfl

/-! ### Callees -/

section Callees

variable {function : String} {ts : List TokenKind}

theorem join?_ne_name
    {k : Chain} {op : TokenKind} {join : Expr → Expr → Expr}
    (h : k.join? op = some join)
    (l r : Expr) :
    join l r ≠ .name function := by
  unfold Chain.join? at h
  split at h <;> cases h <;> exact nofun

theorem negated_ne_name
    (e : Expr) :
    negated e ≠ .name function := by
  unfold negated
  split <;> exact nofun

theorem operand_of_name
    {k : Chain}
    (D : Derivation anyTokens (.chain k) ts (.name function)) :
    Nonempty (Derivation anyTokens k.operand ts (.name function)) := by
  cases D with
  | operand D => exact ⟨D⟩
  | link hjoin htree _ _ => exact absurd htree (join?_ne_name hjoin _ _)

/-- No node stands between an expression and the name that it is. -/
theorem signed_of_name
    (D : Derivation anyTokens (.chain .or) ts (.name function)) :
    Nonempty (Derivation anyTokens .signed ts (.name function)) := by
  obtain ⟨conjunction⟩ := operand_of_name D
  obtain ⟨negation⟩ := operand_of_name (k := .and) conjunction
  cases negation with
  | positive comparison =>
      cases comparison with
      | sum sum =>
          obtain ⟨product⟩ := operand_of_name sum
          exact operand_of_name (k := .product) product
      | linked linked => cases linked

/-- The signs in front of a name are in front of its call, too. -/
theorem exists_call
    {ts : List TokenKind} {e : Expr}
    (D : Derivation anyTokens .signed ts e)
    (he : e = .name function) :
    ∃ own around : Nat, ∀ {us : List TokenKind} {args : List Expr}
      (A : Derivation anyTokens .items us (.list args)),
      ∃ C : Derivation anyTokens .signed
          (ts ++ .symbol .leftParen :: (us ++ [.symbol .rightParen])) (.call function args),
        C.levels = max own (around + A.levels) := by
  match ts, e, D, he with
  | _, _, .minus _, he => exact absurd he (negated_ne_name _)
  | _, _, .plus D, he =>
      obtain ⟨own, around, hcall⟩ := exists_call D he
      refine ⟨own + 1, around + 1, fun A => ?_⟩
      obtain ⟨C, hC⟩ := hcall A
      rw [List.cons_append]
      refine ⟨.plus C, ?_⟩
      show C.levels + 1 = _
      omega
  | _, _, .unsigned D, rfl =>
      cases D with
      | unsuffixed P =>
          refine ⟨P.levels, 1, fun A => ⟨.unsigned (.call (.unsuffixed P) trivial A), ?_⟩⟩
          show max P.levels (0 + 1 + A.levels) = _
          rw [Nat.zero_add]

theorem lexes_callText
    {callee : String} {kinds : List TokenKind}
    (hkinds : Lexer.Lexes callee.toList kinds)
    (x : Sibling) (ys : List Sibling) :
    Lexer.Lexes (callText callee ((x :: ys).map Sibling.source)).toList
      (kinds ++ .symbol .leftParen :: (x.joined ys ++ [.symbol .rightParen])) := by
  rw [callText, String.toList_append, String.toList_append, String.toList_append,
    List.append_assoc, List.append_assoc]
  exact hkinds.append (Lexer.setApart_cons rfl _) (.delimiter rfl
    ((x.lexes_joined ys).append (Lexer.setApart_cons rfl _) (.delimiter rfl .nil)))

/-- A call charges its callee and, around its arguments, one level; each argument for itself. -/
theorem encloses_callText
    {callee : String}
    (h : parse callee = .ok (.name function)) :
    Encloses (callText callee) (.call function) := by
  obtain ⟨kinds, hkinds, ⟨D⟩⟩ := exists_derivation h
  obtain ⟨signed⟩ := signed_of_name D
  obtain ⟨own, around, hcall⟩ := exists_call signed rfl
  refine ⟨own, around, fun x ys => ?_⟩
  obtain ⟨C, hC⟩ := hcall (.listed (x.listed ys))
  rw [parse_of_derivation (lexes_callText hkinds x ys) C.ofSigned]
  exact congrArg (within 0 · _) hC

end Callees

/-- Every function of the parser that succeeds leaves the depth as it was, and expressions are
charged for the nesting on the way to them only. -/
theorem siblings_charged_alone :
    (∀ (depth : Nat) (ts : List TokenKind),
      (∀ k, Restores depth (parseChain k depth ts)) ∧
      (∀ k, Restores depth (parseOperand k depth ts)) ∧
      Restores depth (parseNot depth ts) ∧
      Restores depth (parseComparison depth ts) ∧
      Restores depth (parseSigned depth ts) ∧
      Restores depth (parseSuffixed depth ts) ∧
      Restores depth (parsePrimary depth ts) ∧
      ∀ sign, Restores depth (parseItems sign depth ts)) ∧
    ChargedAlone listText .list ∧
    ∀ callee function, parse callee = .ok (.name function) →
      ChargedAlone (callText callee) (.call function) := by
  refine ⟨fun depth ts => ⟨fun k => ?_, fun k => ?_, ?_, ?_, ?_, ?_, ?_, fun sign => ?_⟩,
    encloses_listText.chargedAlone, fun callee function h => (encloses_callText h).chargedAlone⟩
  all_goals apply restores_of_outcome
  · exact fun _ => readChain_restores
  · exact fun _ => readOperand_restores
  · exact fun _ => readNot_restores
  · exact fun _ => readComparison_restores
  · exact fun _ => readSigned_restores
  · exact fun _ => readSuffixed_restores
  · exact fun _ => readPrimary_restores
  · exact fun _ => readItems_restores

theorem lexes_f : Lexer.Lexes "f".toList [.ident "f"] :=
  .name ⟨⟨'f', [], rfl, by decide, nofun⟩, fun word => by cases word <;> decide⟩

/-- A name in brackets, any number of them deep. -/
def bracketed : Nat → Sibling
  | 0 => ⟨"f", .name "f", [.ident "f"], lexes_f, .ofPrimary (.atom rfl)⟩
  | k + 1 =>
      let x := bracketed k
      { source := listText [x.source]
        tree := .list [x.tree]
        kinds := TokenKind.symbol .leftBracket :: (x.joined [] ++ [TokenKind.symbol .rightBracket])
        lexes := lexes_listText x []
        derivation := .ofPrimary (.list (.listed (x.listed []))) }

/-- Each bracket takes a level. -/
theorem levels_bracketed
    (k : Nat) :
    (bracketed k).levels = k := by
  induction k with
  | zero => rfl
  | succ k ih =>
      calc
        (bracketed (k + 1)).levels = (bracketed k).levels + 1 := rfl
        _ = k + 1 := by rw [ih]

/-- Brackets within brackets parse up to the limit. -/
theorem exists_parse_bracketed_iff
    (k : Nat) :
    (∃ e, parse (bracketed k).source = .ok e) ↔ k ≤ Limits.expressionDepth := by
  rw [parse_of_derivation (bracketed k).lexes (bracketed k).derivation, exists_within_iff]
  exact iff_of_eq (congrArg (· ≤ _) (levels_bracketed k))

theorem exists_parse_callText_bracketed_iff
    (k : Nat) :
    (∃ e, parse (callText "f" [(bracketed k).source]) = .ok e) ↔
      k + 1 ≤ Limits.expressionDepth := by
  let callee : Derivation anyTokens .primary [.ident "f"] (.name "f") := .atom rfl
  let D : Derivation anyTokens .suffixed _ (.call "f" [(bracketed k).tree]) :=
    .call (.unsuffixed callee) trivial (.listed ((bracketed k).listed []))
  have hlevels : D.levels = k + 1 :=
    calc
      D.levels = max 0 (0 + 1 + (bracketed k).levels) := rfl
      _ = k + 1 := by rw [levels_bracketed]; omega
  have hlex := lexes_callText lexes_f (bracketed k) []
  rw [List.map_singleton] at hlex
  rw [parse_of_derivation hlex (Derivation.unsigned D).ofSigned, exists_within_iff]
  exact iff_of_eq (congrArg (· ≤ _) hlevels)

/-- Siblings that take all levels stand beside each other, and one that takes a level more than
is left keeps the others out. -/
theorem siblings_charged_alone_nested :
    let x := (bracketed 99).source
    let y := (bracketed 100).source
    (∃ e, parse (listText [x, x, x]) = .ok e) ∧ (∃ e, parse (callText "f" [x, x, x]) = .ok e) ∧
      (∃ e, parse y = .ok e) ∧ parse (listText [x, y]) = .error (.tooDeep 100) := by
  intro x y
  obtain ⟨-, hlist, hcall⟩ := siblings_charged_alone
  have hname : parse "f" = .ok (.name "f") := parse_of_derivation lexes_f (bracketed 0).derivation
  obtain ⟨s, hs⟩ : ∃ s, parse x = .ok s := (exists_parse_bracketed_iff 99).mpr (by decide)
  obtain ⟨t, ht⟩ : ∃ t, parse y = .ok t := (exists_parse_bracketed_iff 100).mpr (by decide)
  have hx : ∃ e, parse (listText [x]) = .ok e := ⟨t, ht⟩
  have hy : ¬∃ e, parse (listText [y]) = .ok e := by
    rw [show listText [y] = (bracketed 101).source from rfl, exists_parse_bracketed_iff]
    decide
  have hxs : List.Forall₂ (fun source t => parse source = .ok t) [x, x, x] [s, s, s] :=
    .cons hs (.cons hs (.cons hs .nil))
  have hxy : List.Forall₂ (fun source t => parse source = .ok t) [x, y] [s, t] :=
    .cons hs (.cons ht .nil)
  refine ⟨(hlist [x, x, x] _ (by simp) hxs).1.mpr ?_,
    (hcall "f" "f" hname [x, x, x] _ (by simp) hxs).1.mpr ?_, ⟨t, ht⟩, ?_⟩
  · simpa using hx
  · simpa using (exists_parse_callText_bracketed_iff 99).mpr (by decide)
  · obtain ⟨hiff, -, hfault⟩ := hlist [x, y] _ (by simp) hxy
    cases hparse : parse (listText [x, y]) with
    | error fault => rw [hfault fault hparse]; rfl
    | ok e => exact absurd (hiff.mp ⟨e, hparse⟩ y (by simp)) hy

end Parser
end LiveProbe
