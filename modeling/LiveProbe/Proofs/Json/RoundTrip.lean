import Mathlib.Algebra.Group.Nat.Defs
import LiveProbe.Json.Printer
import LiveProbe.Json.Reader
import LiveProbe.Proofs.Lists
import LiveProbe.Proofs.Text.Numeral

/-!
# Reading what was written

Values that records are written as, and what is read from their texts.

**Input.**  Values built of texts, natural numbers of up to twenty digits, lists, and objects
whose keys are texts (`Json.IsWritten`).  A text may hold any characters.

**Reading.**  A value is read off the front of a longer text.  What stands behind it is nothing
or begins with a comma or a closing bracket (`Closes`), where no number goes on.

**Results.**
* `readQuoted_escapeChars`: escapes of a text are read as its characters.
* `IsWritten.isReadable`: a written value is read off the front, up to its end.
* `parse?_render`: the text of a written value is read as that value.
-/

namespace LiveProbe
namespace Json

open Text (isDigit digitValue exists_toDigits numeralValue)

/-! ### Quoted texts -/

section Quoted

variable {c : Char}

/-- A character without an escape is no quote, no backslash and no control. -/
theorem of_escape?_eq_none
    (h : escape? c = none) :
    c ≠ '"' ∧ c ≠ '\\' ∧ ¬c.toNat < 0x20 := by
  unfold escape? at h
  split at h
  · cases h
  · next hquote =>
      split at h
      · cases h
      · next hslash =>
          refine ⟨hquote, hslash, fun hcontrol => ?_⟩
          simp only [hcontrol, if_true] at h
          grind

/-- A control is read back from its four hexadecimal digits. -/
theorem readEscape_control
    (hc : c.toNat < 0x20)
    (cs : List Char) :
    readEscape ('u' :: '0' :: '0' :: hexDigit (c.toNat / 16) :: hexDigit c.toNat :: cs) =
      some (some c, cs) := by
  have hunits :
      ∀ n < 0x20, unit? '0' '0' (hexDigit (n / 16)) (hexDigit n) = some n ∧
        isLeading n = false ∧ isTrailing n = false := by
    decide
  obtain ⟨hunit, hleading, htrailing⟩ := hunits c.toNat hc
  simp [readEscape, hunit, hleading, htrailing]

/-- Every escape is read back as the character it stands for. -/
theorem of_escape?_eq_some
    {e : List Char}
    (h : escape? c = some e) :
    ∃ behind, e = '\\' :: behind ∧ ∀ cs, readEscape (behind ++ cs) = some (some c, cs) := by
  unfold escape? at h
  repeat' split at h
  all_goals cases h
  all_goals
    refine ⟨_, rfl, fun cs => ?_⟩
    first
      | exact readEscape_control ‹_› cs
      | subst_vars; rfl

/-- A character without an escape is read as itself. -/
theorem readQuoted_cons_of_plain
    (h : escape? c = none)
    (acc cs : List Char) :
    readQuoted (some acc) (c :: cs) = readQuoted (some (c :: acc)) cs := by
  obtain ⟨hquote, hslash, hcontrol⟩ := of_escape?_eq_none h
  rw [readQuoted]
  · rw [if_neg hcontrol]
    rfl
  · exact hquote
  · exact hslash

theorem readQuoted_of_readEscape
    {cs rest : List Char}
    (h : readEscape cs = some (some c, rest))
    (acc : List Char) :
    readQuoted (some acc) ('\\' :: cs) = readQuoted (some (c :: acc)) rest := by
  rw [readQuoted]
  split
  · next hnone =>
      rw [h] at hnone
      cases hnone
  · next hsome =>
      rw [h] at hsome
      cases hsome
      rfl

/-- Escaped characters are read back, up to the closing quote. -/
theorem readQuoted_escapeChars
    (acc cs rest : List Char) :
    readQuoted (some acc) (escapeChars cs ++ '"' :: rest) =
      some (some (String.ofList (acc.reverse ++ cs)), rest) := by
  induction cs generalizing acc with
  | nil => simp [escapeChars, readQuoted]
  | cons c cs ih =>
      have hfirst :
          readQuoted (some acc) (escapeChars (c :: cs) ++ '"' :: rest) =
            readQuoted (some (c :: acc)) (escapeChars cs ++ '"' :: rest) := by
        rw [escapeChars, List.flatMap_cons, ← escapeChars, List.append_assoc]
        rcases hescape : escape? c with _ | e
        · exact readQuoted_cons_of_plain hescape acc _
        · obtain ⟨behind, rfl, hread⟩ := of_escape?_eq_some hescape
          exact readQuoted_of_readEscape (hread _) acc
      rw [hfirst, ih, List.reverse_cons, List.append_assoc]
      rfl

/-- Text without characters to escape is left as it is. -/
theorem escapeChars_eq_self
    {cs : List Char}
    (h : cs.all (fun c => (escape? c).isNone) = true) :
    escapeChars cs = cs := by
  induction cs with
  | nil => rfl
  | cons c cs ih =>
      rw [List.all_cons, Bool.and_eq_true, Option.isNone_iff_eq_none] at h
      rw [escapeChars, List.flatMap_cons, ← escapeChars, ih h.2, h.1]
      rfl

theorem toList_quote
    (s : String) :
    (quote s).toList = '"' :: (escapeChars s.toList ++ ['"']) := by
  unfold quote
  split
  · next hplain => simp [escapeChars_eq_self hplain]
  · simp

end Quoted

/-! ### What is found -/

/-- A value was read off the front of a text, with `rest` behind it. -/
def Finds {α : Type} {cs : List Char} (found : Option (Read α cs)) (value : α)
    (rest : List Char) : Prop :=
  ∃ shorter, found = some ⟨value, rest, shorter⟩

/-- Nothing, or the end of a value and not its continuation. -/
def Closes : List Char → Prop
  | [] => True
  | c :: _ => c = ',' ∨ c = ']' ∨ c = '\x7d'

/-- A quoted text is read back, with what stands behind it. -/
theorem finds_readKey
    (s : String) (rest : List Char) :
    Finds (readKey ((quote s).toList ++ rest)) (some s) rest := by
  have hread :
      readQuoted (some []) (escapeChars s.toList ++ '"' :: rest) = some (some s, rest) := by
    rw [readQuoted_escapeChars, List.reverse_nil, List.nil_append, String.ofList_toList]
  rw [toList_quote, List.cons_append, List.append_assoc, List.singleton_append]
  rw [Finds, readKey]
  split
  · next hnone =>
      rw [hread] at hnone
      cases hnone
  · next hsome =>
      rw [hread] at hsome
      cases hsome
      exact ⟨by simp; omega, rfl⟩

theorem skipSpace_cons
    {c : Char}
    (h : isSpace c = false)
    (cs : List Char) :
    skipSpace (c :: cs) = c :: cs := by
  rw [skipSpace, List.dropWhile_cons, h]
  rfl

theorem readMark_self
    (mark : Char)
    (h : isSpace mark = false)
    (cs : List Char) :
    ∃ shorter, readMark mark (mark :: cs) = some ⟨cs, shorter⟩ := by
  unfold readMark
  split
  · next c rest hskip =>
      rw [skipSpace_cons h] at hskip
      cases hskip
      exact ⟨Nat.lt_succ_self _, if_pos rfl⟩
  · next hskip =>
      rw [skipSpace_cons h] at hskip
      cases hskip

theorem readMark_of_ne
    {mark c : Char}
    (h : isSpace c = false)
    (hne : c ≠ mark)
    (cs : List Char) :
    readMark mark (c :: cs) = none := by
  unfold readMark
  split
  · next hskip =>
      rw [skipSpace_cons h] at hskip
      cases hskip
      exact if_neg hne
  · rfl

/-! ### Numbers -/

section Number

variable {rest : List Char}

theorem takeWhile_digits
    {ds : List Char}
    (hds : ∀ c ∈ ds, isDigit c = true)
    (hrest : Closes rest) :
    (ds ++ rest).takeWhile isDigit = ds ∧ (ds ++ rest).dropWhile isDigit = rest := by
  refine List.takeWhile_run hds fun c hc => ?_
  cases rest with
  | nil => cases hc
  | cons d cs =>
      obtain rfl : d = c := Option.some.inj hc
      rcases hrest with rfl | rfl | rfl <;> decide

/-- A decimal numeral has no fraction and no exponent. -/
theorem unsignedParts?_toDigits
    (n : Nat)
    (hrest : Closes rest) :
    unsignedParts? (Nat.toDigits 10 n ++ rest) = some (Nat.toDigits 10 n, []) := by
  obtain ⟨htake, hdrop⟩ :=
    takeWhile_digits (fun _ hc => Text.isDigit_of_mem_toDigits hc : ∀ c ∈ Nat.toDigits 10 n, _)
      hrest
  have hmore : fractionPart? rest = some [] ∧ exponentPart? rest = some [] := by
    rcases rest with _ | ⟨c, cs⟩
    · exact ⟨rfl, rfl⟩
    · rcases hrest with rfl | rfl | rfl <;> exact ⟨rfl, rfl⟩
  unfold unsignedParts?
  rw [htake, hdrop]
  dsimp only
  split
  · next hnil => exact absurd hnil Nat.toDigits_ne_nil
  · next hzero =>
      -- A zero in front of other digits would be that of no number.
      rcases Nat.eq_zero_or_pos n with rfl | hn
      · rw [Nat.toDigits_zero] at hzero
        cases hzero
      · obtain ⟨c, cs, hdigits, hc⟩ := Text.toDigits_leading hn
        rw [hdigits] at hzero
        exact absurd (List.cons.inj hzero).1 hc
  · simp [hmore]

theorem readNumber_toDigits
    {n : Nat}
    (hn : n < 10 ^ 20)
    (hrest : Closes rest) :
    readNumber (Nat.toDigits 10 n ++ rest) = some (.int n, (Nat.toDigits 10 n).length) := by
  have hshort : (Nat.toDigits 10 n).length < integerDigits :=
    Nat.lt_succ_of_le ((Nat.length_toDigits_le_iff (by decide) (by decide)).mpr hn)
  unfold readNumber
  split
  · next negative ds hsign =>
      split at hsign
      · next hminus =>
          obtain ⟨c, ds, hdigits, hc⟩ := exists_toDigits n
          rw [hdigits, List.cons_append] at hminus
          rw [(List.cons.inj hminus).1] at hc
          exact absurd hc (by decide)
      · cases hsign
        rw [unsignedParts?_toDigits n hrest]
        simp [hshort, Text.numeralValue_toDigits]

theorem finds_readNumeric
    {n : Nat}
    (hn : n < 10 ^ 20)
    (hrest : Closes rest) :
    Finds (readNumeric (Nat.toDigits 10 n ++ rest)) (.int n) rest := by
  have hread := readNumber_toDigits hn hrest
  obtain ⟨c, ds, hdigits, -⟩ := exists_toDigits n
  rw [hdigits, List.cons_append] at hread ⊢
  rw [Finds, readNumeric, hread]
  have hshorter : rest.length < (c :: (ds ++ rest)).length := by
    rw [List.length_cons, List.length_append]
    omega
  exact ⟨hshorter, by simp⟩

end Number

/-! ### Values -/

section Value

/-- A text, list, object or number begins with the character. -/
def Opens (c : Char) : Prop :=
  c = '"' ∨ c = '[' ∨ c = '\x7b' ∨ isDigit c = true

theorem ne_of_isDigit
    {c d : Char}
    (hc : isDigit c = true)
    (hd : isDigit d = false) :
    c ≠ d := by
  rintro rfl
  rw [hc] at hd
  cases hd

theorem isSpace_of_opens
    {c : Char}
    (h : Opens c) :
    isSpace c = false := by
  rcases h with rfl | rfl | rfl | h
  · decide
  · decide
  · decide
  · have hne : ∀ d ∈ [' ', '\t', '\n', '\r'], c ≠ d := by
      intro d hd
      refine ne_of_isDigit h ?_
      simp only [List.mem_cons, List.not_mem_nil, or_false] at hd
      rcases hd with rfl | rfl | rfl | rfl <;> rfl
    simp [isSpace, hne]

/-- The first character decides what is read. -/
theorem readValue_cons
    {c : Char}
    (hc : Opens c)
    (cs : List Char) :
    readValue (c :: cs) =
      if c = '"' then do
        let text ← readKey (c :: cs)
        return ⟨.str text.value, text.rest, text.shorter⟩
      else if c = '[' then do
        let items ← match readMark ']' cs with
          | some after => some ⟨[], after.val, after.property⟩
          | none => readItems [] cs cs (Nat.le_refl _)
        return ⟨.array items.value, items.rest, Nat.lt_succ_of_lt items.shorter⟩
      else if c = '\x7b' then do
        let members ← match readMark '\x7d' cs with
          | some after => some ⟨[], after.val, after.property⟩
          | none => readMembers [] cs cs (Nat.le_refl _)
        return ⟨.object members.value, members.rest, Nat.lt_succ_of_lt members.shorter⟩
      else readNumeric (c :: cs) := by
  have hspace := isSpace_of_opens hc
  rw [readValue]
  split
  · next hskip =>
      rw [skipSpace_cons hspace] at hskip
      cases hskip
  · next hskip =>
      have hsame := hskip
      rw [skipSpace_cons hspace] at hsame
      cases hsame
      dsimp only
      split_ifs with hquote hbracket hbrace
      · rfl
      · rfl
      · rfl
      · have hdigit : isDigit c = true := by simpa [Opens, *] using hc
        split
        · exact absurd hdigit (by decide)
        · exact absurd hdigit (by decide)
        · exact absurd hdigit (by decide)
        · rcases readNumeric (c :: cs) with _ | _ <;> rfl

variable {cs rest : List Char}

theorem finds_readValue_text
    {s : String}
    (h : Finds (readKey ('"' :: cs)) (some s) rest) :
    Finds (readValue ('"' :: cs)) (ofString s) rest := by
  obtain ⟨shorter, hkey⟩ := h
  rw [readValue_cons (by simp [Opens]), if_pos rfl, hkey]
  exact ⟨shorter, rfl⟩

theorem finds_readValue_number
    {c : Char} {j : Json}
    (hc : isDigit c = true)
    (h : Finds (readNumeric (c :: cs)) j rest) :
    Finds (readValue (c :: cs)) j rest := by
  have hne : c ≠ '"' ∧ c ≠ '[' ∧ c ≠ '\x7b' :=
    ⟨ne_of_isDigit hc (by decide), ne_of_isDigit hc (by decide), ne_of_isDigit hc (by decide)⟩
  rw [readValue_cons (by simp [Opens, hc]), if_neg hne.1, if_neg hne.2.1, if_neg hne.2.2]
  exact h

theorem finds_readValue_nil
    (rest : List Char) :
    Finds (readValue ('[' :: ']' :: rest)) (.array []) rest := by
  obtain ⟨shorter, hmark⟩ := readMark_self ']' (by decide) rest
  rw [readValue_cons (by simp [Opens]), if_neg (by decide), if_pos rfl, hmark]
  exact ⟨Nat.lt_succ_of_lt shorter, rfl⟩

theorem finds_readValue_array
    {items : List Json}
    (hopen : readMark ']' cs = none)
    (h : Finds (readItems [] cs cs (Nat.le_refl _)) items rest) :
    Finds (readValue ('[' :: cs)) (.array items) rest := by
  obtain ⟨shorter, hitems⟩ := h
  rw [readValue_cons (by simp [Opens]), if_neg (by decide), if_pos rfl, hopen, hitems]
  exact ⟨Nat.lt_succ_of_lt shorter, rfl⟩

theorem finds_readValue_empty
    (rest : List Char) :
    Finds (readValue ('\x7b' :: '\x7d' :: rest)) (.object []) rest := by
  obtain ⟨shorter, hmark⟩ := readMark_self '\x7d' (by decide) rest
  rw [readValue_cons (by simp [Opens]), if_neg (by decide), if_neg (by decide), if_pos rfl, hmark]
  exact ⟨Nat.lt_succ_of_lt shorter, rfl⟩

theorem finds_readValue_object
    {members : List (JsonText × Json)}
    (hopen : readMark '\x7d' cs = none)
    (h : Finds (readMembers [] cs cs (Nat.le_refl _)) members rest) :
    Finds (readValue ('\x7b' :: cs)) (.object members) rest := by
  obtain ⟨shorter, hmembers⟩ := h
  rw [readValue_cons (by simp [Opens]), if_neg (by decide), if_neg (by decide), if_pos rfl, hopen,
    hmembers]
  exact ⟨Nat.lt_succ_of_lt shorter, rfl⟩

end Value

/-! ### Rows -/

section Rows

variable {cs after rest : List Char} {acc items : List Json} {j : Json} {origin : List Char}

/-- The last item stands before the closing bracket. -/
theorem finds_readItems_last
    {hcs : cs.length ≤ origin.length}
    (h : Finds (readValue cs) j (']' :: rest)) :
    Finds (readItems acc origin cs hcs) (acc.reverse ++ [j]) rest := by
  obtain ⟨shorter, hvalue⟩ := h
  obtain ⟨_, hend⟩ := readMark_self ']' (by decide) rest
  rw [readItems, hvalue]
  dsimp only [Option.bind_eq_bind, Option.bind_some]
  rw [readMark_of_ne (by decide) (by decide), hend]
  refine ⟨?_, by simp⟩
  rw [List.length_cons] at shorter
  omega

theorem finds_readItems_cons
    {hcs : cs.length ≤ origin.length}
    (h : Finds (readValue cs) j (',' :: after))
    (hitems : ∀ hafter, Finds (readItems (j :: acc) origin after hafter) items rest) :
    Finds (readItems acc origin cs hcs) items rest := by
  obtain ⟨_, hvalue⟩ := h
  obtain ⟨_, hcomma⟩ := readMark_self ',' (by decide) after
  rw [readItems, hvalue]
  dsimp only [Option.bind_eq_bind, Option.bind_some]
  rw [hcomma]
  exact hitems _

variable {key : String} {found members : List (JsonText × Json)}

theorem finds_readKey_skipSpace
    (key : String) (rest : List Char) :
    Finds (readKey (skipSpace ((quote key).toList ++ rest))) (some key) rest := by
  have hskip : skipSpace ((quote key).toList ++ rest) = (quote key).toList ++ rest := by
    rw [toList_quote, List.cons_append, skipSpace_cons (by decide)]
  rw [hskip]
  exact finds_readKey key rest

/-- The last member stands before the closing brace. -/
theorem finds_readMembers_last
    {hcs : ((quote key).toList ++ ':' :: cs).length ≤ origin.length}
    (h : Finds (readValue cs) j ('\x7d' :: rest)) :
    Finds (readMembers found origin ((quote key).toList ++ ':' :: cs) hcs)
      (found.reverse ++ [(some key, j)]) rest := by
  obtain ⟨shorter, hvalue⟩ := h
  obtain ⟨_, hkey⟩ := finds_readKey_skipSpace key (':' :: cs)
  obtain ⟨_, hcolon⟩ := readMark_self ':' (by decide) cs
  obtain ⟨_, hend⟩ := readMark_self '\x7d' (by decide) rest
  rw [readMembers, hkey]
  dsimp only [Option.bind_eq_bind, Option.bind_some]
  rw [hcolon]
  dsimp only [Option.bind_some]
  rw [hvalue]
  dsimp only [Option.bind_some]
  rw [readMark_of_ne (by decide) (by decide), hend]
  refine ⟨?_, by simp⟩
  simp only [List.length_append, List.length_cons] at shorter hcs
  omega

theorem finds_readMembers_cons
    {hcs : ((quote key).toList ++ ':' :: cs).length ≤ origin.length}
    (h : Finds (readValue cs) j (',' :: after))
    (hmembers : ∀ hafter,
        Finds (readMembers ((some key, j) :: found) origin after hafter) members rest) :
    Finds (readMembers found origin ((quote key).toList ++ ':' :: cs) hcs) members rest := by
  obtain ⟨_, hvalue⟩ := h
  obtain ⟨_, hkey⟩ := finds_readKey_skipSpace key (':' :: cs)
  obtain ⟨_, hcolon⟩ := readMark_self ':' (by decide) cs
  obtain ⟨_, hcomma⟩ := readMark_self ',' (by decide) after
  rw [readMembers, hkey]
  dsimp only [Option.bind_eq_bind, Option.bind_some]
  rw [hcolon]
  dsimp only [Option.bind_some]
  rw [hvalue]
  dsimp only [Option.bind_some]
  rw [hcomma]
  exact hmembers _

end Rows

/-! ### Written values -/

/-- Values of texts, natural numbers, lists, and objects under texts. -/
inductive IsWritten : Json → Prop
  | text (s : String) : IsWritten (ofString s)
  | number {n : Nat} : n < 10 ^ 20 → IsWritten (.int n)
  | list {items : List Json} : (∀ j ∈ items, IsWritten j) → IsWritten (.array items)
  | record {members : List (String × Json)} :
      (∀ m ∈ members, IsWritten m.2) → IsWritten (ofMembers members)

/-- The characters of a written value. -/
def chars (j : Json) : List Char := (render j).toList

theorem chars_ofString
    (s : String) :
    chars (ofString s) = (quote s).toList := by
  simp [chars, ofString, render, renderOnto]

theorem chars_number
    (n : Nat) :
    chars (.int n) = Nat.toDigits 10 n := by
  have hwritten : toString (n : Int) = toString n := rfl
  simp [chars, render, renderOnto, hwritten]

section Rows

variable (rest : List Char)

/-- The end of a list, behind an item and with `rest` after it. -/
def listEnd : List Json → List Char
  | [] => ']' :: rest
  | item :: items => ',' :: (chars item ++ listEnd items)

/-- A member with what stands behind it. -/
def member (m : String × Json) (behind : List Char) : List Char :=
  (quote m.1).toList ++ ':' :: (chars m.2 ++ behind)

/-- The end of an object, behind a member and with `rest` after it. -/
def objectEnd : List (String × Json) → List Char
  | [] => '\x7d' :: rest
  | m :: members => ',' :: member m (objectEnd members)

/-- Items are written one after the other, onto what was written before. -/
theorem toList_renderItems
    (acc : String) (items : List Json) :
    (renderItems acc "," items).toList ++ ']' :: rest = acc.toList ++ listEnd rest items := by
  induction items generalizing acc with
  | nil => rfl
  | cons item items ih =>
      rw [renderItems, ih, renderOnto_eq]
      simp [listEnd, chars]

theorem toList_renderMembers
    (acc : String) (members : List (String × Json)) :
    (renderMembers acc "," (members.map fun m => (some m.1, m.2))).toList ++ '\x7d' :: rest =
      acc.toList ++ objectEnd rest members := by
  induction members generalizing acc with
  | nil => rfl
  | cons m members ih =>
      rw [List.map_cons, renderMembers, ih, renderOnto_eq]
      simp [objectEnd, member, chars]

theorem chars_array_cons
    (item : Json) (items : List Json) :
    chars (.array (item :: items)) ++ rest = '[' :: (chars item ++ listEnd rest items) := by
  rw [chars, render, renderOnto, renderItems, String.toList_append, List.append_assoc]
  refine (toList_renderItems rest _ items).trans ?_
  simp [renderOnto_eq, chars]

theorem chars_ofMembers_cons
    (m : String × Json) (members : List (String × Json)) :
    chars (ofMembers (m :: members)) ++ rest = '\x7b' :: member m (objectEnd rest members) := by
  rw [chars, ofMembers, render, renderOnto, List.map_cons, renderMembers, String.toList_append,
    List.append_assoc]
  refine (toList_renderMembers rest _ members).trans ?_
  simp [renderOnto_eq, chars, member]

end Rows

/-- What is written opens with a character that tells its form. -/
theorem IsWritten.opens
    {j : Json}
    (h : IsWritten j) :
    ∃ c cs, chars j = c :: cs ∧ Opens c := by
  cases h with
  | text s => exact ⟨_, _, (chars_ofString s).trans (toList_quote s), by simp [Opens]⟩
  | @number n _ =>
      obtain ⟨c, ds, hdigits, hc⟩ := exists_toDigits n
      exact ⟨c, ds, (chars_number n).trans hdigits, by simp [Opens, hc]⟩
  | @list items _ =>
      cases items with
      | nil => exact ⟨'[', [']'], rfl, by simp [Opens]⟩
      | cons item items =>
          have hchars := chars_array_cons [] item items
          rw [List.append_nil] at hchars
          exact ⟨_, _, hchars, by simp [Opens]⟩
  | @record members _ =>
      cases members with
      | nil => exact ⟨'\x7b', ['\x7d'], rfl, by simp [Opens]⟩
      | cons m members =>
          have hchars := chars_ofMembers_cons [] m members
          rw [List.append_nil] at hchars
          exact ⟨_, _, hchars, by simp [Opens]⟩

/-- No list is closed where an item begins. -/
theorem IsWritten.readMark_eq_none
    {j : Json}
    (h : IsWritten j)
    (cs : List Char) :
    readMark ']' (chars j ++ cs) = none := by
  obtain ⟨c, ds, hchars, hc⟩ := h.opens
  rw [hchars, List.cons_append]
  refine readMark_of_ne (isSpace_of_opens hc) ?_ _
  rintro rfl
  revert hc
  simp [Opens, isDigit]

/-- The value is read wherever its text stands. -/
def IsReadable (j : Json) : Prop :=
  ∀ rest, Closes rest → Finds (readValue (chars j ++ rest)) j rest

theorem finds_readItems
    {item : Json} {items acc : List Json} {origin rest : List Char}
    {hcs : (chars item ++ listEnd rest items).length ≤ origin.length}
    (hitems : ∀ j ∈ item :: items, IsReadable j) :
    Finds (readItems acc origin (chars item ++ listEnd rest items) hcs)
      (acc.reverse ++ item :: items) rest := by
  have hfirst : IsReadable item := hitems item List.mem_cons_self
  induction items generalizing item acc with
  | nil => exact finds_readItems_last (hfirst _ (by simp [Closes, listEnd]))
  | cons next items ih =>
      refine finds_readItems_cons (hfirst _ (by simp [Closes, listEnd])) fun hafter => ?_
      have hrest := fun j hj => hitems j (List.mem_cons_of_mem item hj)
      have hnext : Finds (readItems (item :: acc) origin _ hafter)
          ((item :: acc).reverse ++ next :: items) rest :=
        ih hrest (hrest next List.mem_cons_self)
      rwa [List.reverse_cons, List.append_assoc] at hnext

theorem finds_readMembers
    {m : String × Json} {members : List (String × Json)} {found : List (JsonText × Json)}
    {origin rest : List Char} {hcs : (member m (objectEnd rest members)).length ≤ origin.length}
    (hmembers : ∀ m' ∈ m :: members, IsReadable m'.2) :
    Finds (readMembers found origin (member m (objectEnd rest members)) hcs)
      (found.reverse ++ (m :: members).map fun m => (some m.1, m.2)) rest := by
  have hfirst : IsReadable m.2 := hmembers m List.mem_cons_self
  induction members generalizing m found with
  | nil => exact finds_readMembers_last (hfirst _ (by simp [Closes, objectEnd]))
  | cons next members ih =>
      refine finds_readMembers_cons (hfirst _ (by simp [Closes, objectEnd])) fun hafter => ?_
      have hrest := fun m' hm' => hmembers m' (List.mem_cons_of_mem m hm')
      have hnext : Finds (readMembers ((some m.1, m.2) :: found) origin _ hafter)
          (((some m.1, m.2) :: found).reverse ++
            (next :: members).map fun m => (some m.1, m.2)) rest :=
        ih hrest (hrest next List.mem_cons_self)
      rwa [List.reverse_cons, List.append_assoc] at hnext

/-- What is written can be read before any text that closes it, by induction on its form. -/
theorem IsWritten.isReadable
    {j : Json}
    (h : IsWritten j) :
    IsReadable j := by
  induction h with
  | text s =>
      intro rest _
      have hkey := finds_readKey s rest
      rw [chars_ofString]
      rw [toList_quote, List.cons_append] at hkey ⊢
      exact finds_readValue_text hkey
  | @number n hn =>
      intro rest hrest
      have hnumber := finds_readNumeric hn hrest
      obtain ⟨c, ds, hdigits, hc⟩ := exists_toDigits n
      rw [chars_number]
      rw [hdigits, List.cons_append] at hnumber ⊢
      exact finds_readValue_number hc hnumber
  | @list items hitems ih =>
      intro rest _
      cases items with
      | nil => exact finds_readValue_nil rest
      | cons item items =>
          rw [chars_array_cons]
          exact finds_readValue_array ((hitems item List.mem_cons_self).readMark_eq_none _)
            (finds_readItems ih)
  | @record members _ ih =>
      intro rest _
      cases members with
      | nil => exact finds_readValue_empty rest
      | cons m members =>
          rw [chars_ofMembers_cons]
          refine finds_readValue_object ?_ (finds_readMembers ih)
          rw [member, toList_quote, List.cons_append]
          exact readMark_of_ne (by decide) (by decide) _

/-- What the writer writes of a document is parsed to it. -/
theorem parse?_render
    {j : Json}
    (h : IsWritten j) :
    parse? j.render = some j := by
  have hread := h.isReadable [] trivial
  rw [List.append_nil] at hread
  obtain ⟨_, hvalue⟩ := hread
  unfold parse?
  rw [← chars, hvalue]
  rfl

end Json
end LiveProbe
