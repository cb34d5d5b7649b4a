import Mathlib.Data.List.Forall2
import Mathlib.Data.String.Basic
import LiveProbe.Expr.Lexer
import LiveProbe.Proofs.Lists
import LiveProbe.Proofs.Text.Numeral

/-!
# Reading what was spelled

**Specification.** `Spells kind text`: a text is a spelling of a token. Whole numbers are
spelled in decimal, strings within either quote with a backslash before that quote and
before a backslash, words and signs as they are. A row of spellings is written with one
blank between any two.

**Results.**
* `Lexer.ReadsAs`: a text is read as one token where a blank or nothing follows it; each
  class of tokens has its lemma (`readsAs_word`, `readsAs_number`, `readsAs_string`,
  `readsAs_symbol`), and so has every spelling (`readsAs_of_spells`).
* `Lexer.tokenize_spelled`: the tokens of a row of spellings are those spelled, each at
  the byte at which its spelling begins.
-/

namespace LiveProbe

/-! ### Spellings -/

/-- The quotes that may stand around a string. -/
inductive Quote
  | single | double
  deriving DecidableEq, Repr

/-- The character of a quote. -/
def Quote.char : Quote → Char
  | single => '\''
  | double => '"'

/-- A character of a string between two quotes. -/
def Quote.escape (quote : Quote) (c : Char) : List Char :=
  if c = quote.char ∨ c = '\\' then ['\\', c] else [c]

/-- A string between two quotes. -/
def Quote.enclose (quote : Quote) (value : String) : String :=
  String.ofList (quote.char :: (value.toList.flatMap quote.escape ++ [quote.char]))

/-- Names begin with an ASCII letter or an underscore and go on with these and digits;
the reserved words are none. -/
def IsIdentifier (name : String) : Prop :=
  (∃ c cs, name.toList = c :: cs ∧ (c.isAlpha ∨ c = '_') ∧ ∀ d ∈ cs, d.isAlphanum ∨ d = '_') ∧
    ∀ word : Keyword, word.spelling ≠ name

/-- A text is a spelling of a token. -/
inductive Spells : TokenKind → String → Prop
  | int {n : Nat} (hn : n < 2 ^ 63) : Spells (.int (Int64.ofNat n)) (toString n)
  | str (quote : Quote) (value : String) : Spells (.str value) (quote.enclose value)
  | ident {name : String} (hname : IsIdentifier name) : Spells (.ident name) name
  | keyword (word : Keyword) : Spells (.keyword word) word.spelling
  | symbol (sign : Symbol) : Spells (.symbol sign) sign.spelling

theorem Keyword.ofSpelling?_spelling
    (word : Keyword) :
    ofSpelling? word.spelling = some word := by
  cases word <;> decide

theorem Keyword.ofSpelling?_eq_none
    {text : String}
    (h : ∀ word : Keyword, word.spelling ≠ text) :
    ofSpelling? text = Option.none := by
  rw [ofSpelling?, List.find?_eq_none]
  intro word _
  rw [beq_iff_eq]
  exact h word

namespace Lexer

open Text (isBlank isDigit)

/-! ### Characters of words -/

theorem isWordStart_iff
    (c : Char) :
    isWordStart c = true ↔ c.isAlpha ∨ c = '_' := by
  have halpha : c.isAlpha = (c.isUpper || c.isLower) := rfl
  have hlower : c.isLower = (('a' ≤ c && c ≤ 'z') : Bool) := rfl
  have hupper : c.isUpper = (('A' ≤ c && c ≤ 'Z') : Bool) := Bool.decide_and _ _
  rw [isWordStart, halpha, hlower, hupper, Bool.or_eq_true, beq_iff_eq, Bool.or_comm]

/-- Words go on with letters, digits and underscores. -/
theorem isWordChar_iff
    (c : Char) :
    isWordChar c = true ↔ c.isAlphanum ∨ c = '_' := by
  have halphanum : c.isAlphanum = (c.isAlpha || isDigit c) := rfl
  rw [isWordChar, Bool.or_eq_true, isWordStart_iff, halphanum, Bool.or_eq_true, or_right_comm]

theorem toNat_of_isWordChar
    {c : Char}
    (h : isWordChar c = true) :
    48 ≤ c.toNat ∧ c.toNat ≤ 122 := by
  simp only [isWordChar, isWordStart, isDigit, Bool.or_eq_true, Bool.and_eq_true,
    decide_eq_true_eq, beq_iff_eq, Char.le_def, UInt32.le_iff_toNat_le] at h
  rw [Char.toNat]
  rcases h with ((h | h) | rfl) | h
  · exact ⟨Nat.le_trans (by decide) h.1, h.2⟩
  · exact ⟨Nat.le_trans (by decide) h.1, Nat.le_trans h.2 (by decide)⟩
  · decide
  · exact ⟨h.1, Nat.le_trans h.2 (by decide)⟩

theorem isBlank_of_isWordChar
    {c : Char}
    (h : isWordChar c = true) :
    isBlank c = false := by
  have hrange := toNat_of_isWordChar h
  simp only [isBlank, Bool.or_eq_false_iff, Bool.and_eq_false_iff, decide_eq_false_iff_not,
    beq_eq_false_iff_ne]
  omega

theorem utf8Size_of_isWordChar
    {c : Char}
    (h : isWordChar c = true) :
    c.utf8Size = 1 := by
  rw [Char.utf8Size_eq_one_iff, UInt32.le_iff_toNat_le]
  exact Nat.le_trans (toNat_of_isWordChar h).2 (by decide)

theorem isWordChar_of_isWordStart
    {c : Char}
    (h : isWordStart c = true) :
    isWordChar c = true := by
  rw [isWordChar, h, Bool.true_or]

theorem isWordChar_of_isDigit
    {c : Char}
    (h : isDigit c = true) :
    isWordChar c = true := by
  rw [isWordChar, h, Bool.or_true]

theorem utf8ByteSize_of_isWordChar
    {cs : List Char}
    (h : ∀ c ∈ cs, isWordChar c = true) :
    (String.ofList cs).utf8ByteSize = cs.length := by
  rw [String.utf8ByteSize_ofList]
  induction cs with
  | nil => rfl
  | cons c cs ih =>
      rw [List.forall_mem_cons] at h
      rw [String.utf8Len_cons, ih h.2, utf8Size_of_isWordChar h.1, List.length_cons]

theorem not_isWordStart_of_isDigit
    {c : Char}
    (h : isDigit c = true) :
    ¬ isWordStart c = true := by
  intro hstart
  simp only [isWordStart, isDigit, Bool.or_eq_true, Bool.and_eq_true, decide_eq_true_eq,
    beq_iff_eq, Char.le_def, UInt32.le_iff_toNat_le] at h hstart
  rcases hstart with (hlower | hupper) | rfl
  · exact absurd (Nat.le_trans hlower.1 h.2) (by decide)
  · exact absurd (Nat.le_trans hupper.1 h.2) (by decide)
  · exact absurd h.2 (by decide)

/-! ### One token -/

theorem tokensFrom_blank
    {acc : List Token} {position : Nat} {cs : List Char} :
    tokensFrom acc position (' ' :: cs) = tokensFrom acc (position + 1) cs := by
  rw [tokensFrom]
  rfl

/-- A lexeme is a token at the position reached, and the scan goes on behind its bytes. -/
theorem tokensFrom_scan
    {acc : List Token} {position : Nat} {c : Char} {cs : List Char} {lexeme : Lexeme (c :: cs)}
    (hblank : isBlank c = false)
    (hscan : scan position c cs = .ok lexeme) :
    tokensFrom acc position (c :: cs) =
      tokensFrom (⟨lexeme.kind, position⟩ :: acc) (position + lexeme.bytes) lexeme.rest := by
  rw [tokensFrom, hblank, hscan]
  rfl

/-- Only a blank follows. -/
def Stops (rest : List Char) : Prop := ∀ c ∈ rest.head?, c = ' '

theorem stops_nil : Stops [] := nofun

theorem stops_blank
    (cs : List Char) :
    Stops (' ' :: cs) := by
  rintro c hc
  exact (Option.mem_some_iff.mp hc).symm

/-- A test that blanks fail is failed by what stops a word. -/
theorem Stops.head?_eq_false
    {p : Char → Bool} {rest : List Char}
    (h : Stops rest)
    (hp : p ' ' = false) :
    ∀ c ∈ rest.head?, p c = false := by
  intro c hc
  rw [h c hc, hp]

/-- A text is one token wherever a blank or nothing follows it. -/
def ReadsAs (text : String) (kind : TokenKind) : Prop :=
  ∃ c cs, text.toList = c :: cs ∧ isBlank c = false ∧
    ∀ (position : Nat) (rest : List Char), Stops rest →
      ∃ lexeme, scan position c (cs ++ rest) = .ok lexeme ∧ lexeme.kind = kind ∧
        lexeme.rest = rest ∧ lexeme.bytes = text.utf8ByteSize

/-- What reads as a kind is one token of the scan, and its bytes are those of its text. -/
theorem ReadsAs.tokensFrom
    {text : String} {kind : TokenKind} {rest : List Char}
    (h : ReadsAs text kind)
    (hrest : Stops rest)
    (acc : List Token) (position : Nat) :
    tokensFrom acc position (text.toList ++ rest) =
      Lexer.tokensFrom (⟨kind, position⟩ :: acc) (position + text.utf8ByteSize) rest := by
  obtain ⟨c, cs, htext, hblank, hscan⟩ := h
  obtain ⟨lexeme, hlexeme, rfl, hunread, hbytes⟩ := hscan position rest hrest
  rw [htext, List.cons_append, tokensFrom_scan hblank hlexeme, hunread, hbytes]

/-! ### Words -/

theorem readsAs_word
    {c : Char} {cs : List Char}
    (hstart : isWordStart c = true)
    (hcs : ∀ d ∈ cs, isWordChar d = true) :
    ReadsAs (String.ofList (c :: cs)) (wordKind (c :: cs)) := by
  have hc := isWordChar_of_isWordStart hstart
  refine ⟨c, cs, String.toList_ofList, isBlank_of_isWordChar hc, fun position rest hrest => ?_⟩
  obtain ⟨hrun, hbehind⟩ := List.takeWhile_run hcs (hrest.head?_eq_false (by decide))
  refine ⟨_, by rw [scan, if_pos hstart], ?_, hbehind, ?_⟩
  · exact congrArg (wordKind ∘ List.cons c) hrun
  · rw [utf8ByteSize_of_isWordChar (List.forall_mem_cons.mpr ⟨hc, hcs⟩), List.length_cons]
    exact congrArg (·.length + 1) hrun

theorem readsAs_keyword
    (word : Keyword) :
    ReadsAs word.spelling (.keyword word) := by
  obtain ⟨c, cs, htext, hstart, hcs⟩ : ∃ c cs, word.spelling.toList = c :: cs ∧
      isWordStart c = true ∧ ∀ d ∈ cs, isWordChar d = true := by
    cases word <;> exact ⟨_, _, rfl, by decide, List.all_eq_true.mp (by decide)⟩
  have hspelling : word.spelling = String.ofList (c :: cs) := by
    rw [← htext, String.ofList_toList]
  have hkind : wordKind (c :: cs) = .keyword word := by
    rw [wordKind, ← hspelling]
    simp only [Keyword.ofSpelling?_spelling]
  rw [← hkind, hspelling]
  exact readsAs_word hstart hcs

theorem readsAs_ident
    {name : String}
    (hname : IsIdentifier name) :
    ReadsAs name (.ident name) := by
  obtain ⟨⟨c, cs, htext, hc, hcs⟩, hfree⟩ := hname
  have hspelling : name = String.ofList (c :: cs) := by
    rw [← htext, String.ofList_toList]
  have hkind : wordKind (c :: cs) = .ident name := by
    rw [wordKind, ← hspelling]
    simp only [Keyword.ofSpelling?_eq_none hfree]
  rw [← hkind, hspelling]
  exact readsAs_word ((isWordStart_iff c).mpr hc) fun d hd => (isWordChar_iff d).mpr (hcs d hd)

/-! ### Numbers -/

theorem isNumeralChar_of_isDigit
    {c : Char}
    (h : isDigit c = true) :
    isNumeralChar c = true := by
  rw [isNumeralChar, h, Bool.true_or]

theorem wholeKind_of_readInt
    {cs : List Char} {n : Int}
    (hdigits : ∀ c ∈ cs, isDigit c = true)
    (hvalue : Text.readInt .signed64 cs = .ok n) :
    wholeKind cs = .ok (.int (Int64.ofInt n)) := by
  have hfilter : cs.filter (· != '_') = cs := by
    rw [List.filter_eq_self]
    intro c hc
    rw [bne_iff_ne]
    rintro rfl
    exact absurd (hdigits _ hc) (by decide)
  simp only [wholeKind, hfilter, hvalue]

/-- A numeral of digits alone is read to its last digit. -/
theorem scanNumber_whole
    {c : Char} {cs rest : List Char} {n : Int}
    (hdigits : ∀ d ∈ c :: cs, isDigit d = true)
    (hrest : Stops rest)
    (hvalue : Text.readInt .signed64 (c :: cs) = .ok n) :
    ∃ lexeme, scanNumber c (cs ++ rest) = .ok lexeme ∧ lexeme.kind = .int (Int64.ofInt n) ∧
      lexeme.rest = rest ∧ lexeme.bytes = cs.length + 1 := by
  have hcs : ∀ d ∈ cs, isNumeralChar d = true := fun d hd =>
    isNumeralChar_of_isDigit (hdigits d (List.mem_cons_of_mem c hd))
  obtain ⟨hrun, hbehind⟩ := List.takeWhile_run hcs (hrest.head?_eq_false (by decide))
  -- a blank is no point, so no fraction follows
  have hwhole : fraction? ((cs ++ rest).dropWhile isNumeralChar) = none := by
    rw [hbehind]
    rcases rest with _ | ⟨d, rest⟩
    · rfl
    · rw [hrest d rfl]
      rfl
  have hkind : wholeKind (c :: (cs ++ rest).takeWhile isNumeralChar) =
      .ok (.int (Int64.ofInt n)) := by
    rw [hrun]
    exact wholeKind_of_readInt hdigits hvalue
  simp only [scanNumber]
  split
  · next h =>
      rw [hkind]
      exact ⟨_, rfl, rfl, hbehind, congrArg (·.length + 1) hrun⟩
  · next h =>
      rw [hwhole] at h
      cases h

/-- The decimal numeral of a natural number in range reads as it. -/
theorem readsAs_number
    {n : Nat}
    (hn : n < 2 ^ 63) :
    ReadsAs (toString n) (.int (Int64.ofNat n)) := by
  have hdigits : ∀ c ∈ Nat.toDigits 10 n, isDigit c = true :=
    fun _ hc => Text.isDigit_of_mem_toDigits hc
  have hvalue : Text.readInt .signed64 (Nat.toDigits 10 n) = .ok (n : Int) := by
    have hhigh : Text.Bounds.signed64.high = 2 ^ 63 - 1 := rfl
    exact Text.readInt_toDigits (by decide) (by omega)
  obtain ⟨c, cs, hcons, hc⟩ := Text.exists_toDigits n
  rw [hcons] at hdigits hvalue
  have hword : ∀ d ∈ c :: cs, isWordChar d = true := fun d hd =>
    isWordChar_of_isDigit (hdigits d hd)
  rw [Nat.toString_eq_ofList_toDigits, hcons, ← Int64.ofInt_eq_ofNat]
  refine ⟨c, cs, String.toList_ofList, isBlank_of_isWordChar (isWordChar_of_isDigit hc),
    fun position rest hrest => ?_⟩
  rw [scan, if_neg (not_isWordStart_of_isDigit hc), if_pos hc, utf8ByteSize_of_isWordChar hword]
  exact scanNumber_whole hdigits hrest hvalue

/-! ### Strings -/

section Strings

variable {quote c : Char} {read cs : List Char} {bytes : Nat}

theorem scanString_quote :
    scanString quote read bytes (quote :: cs) =
      some (String.ofList read.reverse, cs, bytes + quote.utf8Size) := by
  rw [scanString.eq_def]
  exact if_pos rfl

/-- A backslash takes the next character with it, two characters of the source for one of the
value. -/
theorem scanString_escaped
    (hquote : '\\' ≠ quote) :
    scanString quote read bytes ('\\' :: c :: cs) =
      scanString quote (unescape c :: read) (bytes + 1 + c.utf8Size) cs := by
  rw [scanString.eq_def]
  exact (if_neg hquote).trans (if_pos rfl)

theorem scanString_plain
    (hquote : c ≠ quote)
    (hescape : c ≠ '\\') :
    scanString quote read bytes (c :: cs) =
      scanString quote (c :: read) (bytes + c.utf8Size) cs := by
  rw [scanString.eq_def]
  exact (if_neg hquote).trans (if_neg hescape)

end Strings

/-- Escaped quotes and backslashes are themselves. -/
theorem unescape_self
    {quote : Quote} {c : Char}
    (h : c = quote.char ∨ c = '\\') :
    unescape c = c := by
  rcases h with rfl | rfl
  · cases quote <;> rfl
  · rfl

/-- A value with its quotes and backslashes escaped is read back, and all its bytes are counted. -/
theorem scanString_enclosed
    (quote : Quote) (read : List Char) (bytes : Nat) (cs rest : List Char) :
    scanString quote.char read bytes (cs.flatMap quote.escape ++ quote.char :: rest) =
      some (String.ofList (read.reverse ++ cs), rest,
        bytes + String.utf8Len (cs.flatMap quote.escape) + quote.char.utf8Size) := by
  induction cs generalizing read bytes with
  | nil =>
      rw [List.flatMap_nil, List.nil_append, scanString_quote, List.append_nil, String.utf8Len_nil]
      rfl
  | cons c cs ih =>
      rw [List.flatMap_cons, List.append_assoc, String.utf8Len_append, Quote.escape]
      have hread : (c :: read).reverse ++ cs = read.reverse ++ c :: cs := by
        rw [List.reverse_cons, List.append_assoc, List.cons_append, List.nil_append]
      split
      · next hc =>
          have hquote : '\\' ≠ quote.char := by cases quote <;> decide
          have hsize : String.utf8Len ['\\', c] = 1 + c.utf8Size := by
            rw [String.utf8Len_cons, String.utf8Len_cons, String.utf8Len_nil, Nat.zero_add,
              Nat.add_comm]
            rfl
          rw [List.cons_append, List.cons_append, List.nil_append, scanString_escaped hquote,
            unescape_self hc, ih, hread, hsize, Nat.add_assoc bytes, Nat.add_assoc bytes]
      · next hc =>
          rw [not_or] at hc
          have hsize : String.utf8Len [c] = c.utf8Size := by
            rw [String.utf8Len_cons, String.utf8Len_nil, Nat.zero_add]
          rw [List.cons_append, List.nil_append, scanString_plain hc.1 hc.2, ih, hread, hsize,
            Nat.add_assoc bytes]

/-- A string enclosed in quotes reads as its value. -/
theorem readsAs_string
    (quote : Quote) (value : String) :
    ReadsAs (quote.enclose value) (.str value) := by
  refine ⟨quote.char, value.toList.flatMap quote.escape ++ [quote.char], String.toList_ofList,
    by cases quote <;> decide, fun position rest _ => ?_⟩
  have hvalue := scanString_enclosed quote [] 0 value.toList rest
  have hstart : ¬ isWordStart quote.char = true := by cases quote <;> decide
  have hdigit : ¬ isDigit quote.char = true := by cases quote <;> decide
  have hquote : quote.char = '"' ∨ quote.char = '\'' := by cases quote <;> decide
  have hsize : (quote.enclose value).utf8ByteSize =
      String.utf8Len (value.toList.flatMap quote.escape) + quote.char.utf8Size + 1 := by
    rw [Quote.enclose, String.utf8ByteSize_ofList, String.utf8Len_cons, String.utf8Len_append,
      String.utf8Len_cons, String.utf8Len_nil, Nat.zero_add]
    cases quote <;> rfl
  rw [List.append_assoc, List.cons_append, List.nil_append, scan, if_neg hstart, if_neg hdigit,
    if_pos (by simpa using hquote)]
  split
  · next h =>
      rw [hvalue] at h
      cases h
  · next h =>
      rw [hvalue] at h
      cases h
      refine ⟨_, rfl, ?_, rfl, ?_⟩
      · simp
      · rw [hsize]
        simp

/-! ### Signs -/

theorem readsAs_symbol
    (sign : Symbol) :
    ReadsAs sign.spelling (.symbol sign) := by
  cases sign <;> refine ⟨_, _, rfl, by decide, fun position rest hrest => ?_⟩
  all_goals
    rcases rest with _ | ⟨d, rest⟩
    · exact ⟨_, rfl, rfl, rfl, rfl⟩
    · obtain rfl : d = ' ' := hrest d rfl
      exact ⟨_, rfl, rfl, rfl, rfl⟩

theorem readsAs_of_spells
    {kind : TokenKind} {text : String}
    (h : Spells kind text) :
    ReadsAs text kind := by
  cases h with
  | int hn => exact readsAs_number hn
  | str quote value => exact readsAs_string quote value
  | ident hname => exact readsAs_ident hname
  | keyword word => exact readsAs_keyword word
  | symbol sign => exact readsAs_symbol sign

/-! ### Rows of tokens -/

/-- What stands before a text in a row: the texts before it, each with a blank behind it. -/
def lead (texts : List String) (i : Nat) : String :=
  String.join ((texts.take i).map (· ++ " "))

theorem lead_zero
    (texts : List String) :
    lead texts 0 = "" := rfl

theorem lead_cons_succ
    (text : String) (texts : List String) (i : Nat) :
    lead (text :: texts) (i + 1) = text ++ " " ++ lead texts i := by
  rw [lead, List.take_succ_cons, List.map_cons, String.join_cons]
  rfl

/-- The text of a row at any token is what leads up to it, its spelling and what stands behind. -/
theorem exists_behind
    {texts : List String} {i : Nat}
    (hi : i < texts.length) :
    ∃ behind, " ".intercalate texts = lead texts i ++ texts[i] ++ behind := by
  induction texts generalizing i with
  | nil => cases hi
  | cons text texts ih =>
      rcases i with _ | i
      · rw [lead_zero, String.empty_append, List.getElem_cons_zero]
        rcases texts with _ | ⟨next, texts⟩
        · exact ⟨"", by rw [String.intercalate_singleton, String.append_empty]⟩
        · exact ⟨_, by rw [String.intercalate_cons_cons, String.append_assoc]⟩
      · have hi : i < texts.length := Nat.lt_of_succ_lt_succ hi
        obtain ⟨behind, hbehind⟩ := ih hi
        refine ⟨behind, ?_⟩
        obtain ⟨next, texts, rfl⟩ := List.exists_cons_of_length_pos (Nat.zero_lt_of_lt hi)
        rw [String.intercalate_cons_cons, hbehind, lead_cons_succ, List.getElem_cons_succ]
        simp only [String.append_assoc]

/-- A row of spellings is scanned to its kinds, each at the bytes that lead up to it. -/
theorem tokensFrom_row
    {kinds : List TokenKind} {texts : List String}
    (h : List.Forall₂ Spells kinds texts) (acc : List Token) (position : Nat) :
    tokensFrom acc position (" ".intercalate texts).toList =
      .ok (acc.reverse ++
        (kinds.mapIdx fun i kind => ⟨kind, position + (lead texts i).utf8ByteSize⟩) ++
        [⟨.eof, position + (" ".intercalate texts).utf8ByteSize⟩]) := by
  induction h generalizing acc position with
  | nil =>
      have hempty : (" ".intercalate []).toList = [] := rfl
      rw [hempty, tokensFrom, List.reverse_cons, List.mapIdx_nil, List.append_nil]
      rfl
  | @cons kind text kinds texts hspells hrow ih =>
      have hread := readsAs_of_spells hspells
      rw [List.mapIdx_cons, lead_zero]
      simp only [lead_cons_succ, String.utf8ByteSize_append]
      cases hrow with
      | nil =>
          have hlast := hread.tokensFrom stops_nil acc position
          rw [List.append_nil] at hlast
          rw [String.intercalate_singleton, hlast, tokensFrom]
          simp
      | @cons _ next _ texts _ _ =>
          have hfirst := hread.tokensFrom (stops_blank (" ".intercalate (next :: texts)).toList)
            acc position
          have hblank : " ".toList = [' '] := rfl
          have hsize : " ".utf8ByteSize = 1 := rfl
          rw [String.intercalate_cons_cons, String.toList_append, String.toList_append,
            List.append_assoc, hblank, List.cons_append, List.nil_append, hfirst, tokensFrom_blank,
            ih]
          simp [hsize, Nat.add_assoc]

/-- Spellings set apart by blanks are tokenized to the kinds they spell, each token at the byte
offset where its spelling starts, with the end mark at the size of the source. -/
theorem tokenize_spelled
    {kinds : List TokenKind} {texts : List String}
    (h : List.Forall₂ Spells kinds texts) :
    tokenize (" ".intercalate texts) =
        .ok ((kinds.mapIdx fun i kind => ⟨kind, (lead texts i).utf8ByteSize⟩) ++
          [⟨.eof, (" ".intercalate texts).utf8ByteSize⟩]) ∧
      ∀ i (hi : i < texts.length),
        ∃ behind, " ".intercalate texts = lead texts i ++ texts[i] ++ behind := by
  refine ⟨?_, fun i hi => exists_behind hi⟩
  rw [tokenize, tokensFrom_row h]
  simp only [List.reverse_nil, List.nil_append, Nat.zero_add]

/-- A row with an identifier, the largest integer, an escaped string of several bytes and a
keyword. -/
theorem tokenize_spelled_row :
    tokenize "x1 . 9223372036854775807 'é\\'\n\"' <= in" =
      .ok [⟨.ident "x1", 0⟩, ⟨.symbol .dot, 3⟩, ⟨.int 9223372036854775807, 5⟩,
        ⟨.str "é'\n\"", 25⟩, ⟨.symbol .le, 34⟩, ⟨.keyword .mem, 37⟩, ⟨.eof, 39⟩] := by
  have hrow : List.Forall₂ Spells
      [.ident "x1", .symbol .dot, .int (Int64.ofNat 9223372036854775807), .str "é'\n\"",
        .symbol .le, .keyword .mem]
      ["x1", ".", toString 9223372036854775807, Quote.single.enclose "é'\n\"", "<=", "in"] :=
    .cons
      (.ident ⟨⟨'x', ['1'], rfl, by decide, List.forall_mem_singleton.mpr (by decide)⟩,
        fun word => by cases word <;> decide⟩)
      (.cons (.symbol .dot) (.cons (.int (by decide)) (.cons (.str .single _)
        (.cons (.symbol .le) (.cons (.keyword .mem) .nil)))))
  exact (tokenize_spelled hrow).1

end Lexer
end LiveProbe
