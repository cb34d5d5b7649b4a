import LiveProbe.Decimal.Reader
import LiveProbe.Expr.Error
import LiveProbe.Expr.Token
import LiveProbe.Text.Blank

/-!
# Tokens of a text

**Input.** The characters of an expression.

**Algorithm.** Blanks are skipped; the next character fixes the class of the
next token; words and numbers take the longest run of their characters, strings
run to the closing quote, signs take one or two characters. The byte offset of
what is still unread is carried along.

**Results.**
* `Lexeme.shorter`: every token consumes at least one character, so the number
  of characters bounds the number of tokens.
-/

namespace LiveProbe
namespace Lexer

open Text (isBlank isDigit)

/-- Letters and the underscore may begin a word. -/
def isWordStart (c : Char) : Bool :=
  ('a' ≤ c && c ≤ 'z') || ('A' ≤ c && c ≤ 'Z') || c == '_'

/-- Words go on with letters, digits and underscores. -/
def isWordChar (c : Char) : Bool := isWordStart c || isDigit c

/-- Numbers go on with digits and underscores; the underscores carry no meaning. -/
def isNumeralChar (c : Char) : Bool := isDigit c || c == '_'

/-- The characters behind an escape in a string; all others stand for themselves. -/
def unescape : Char → Char
  | 'n' => '\n'
  | 't' => '\t'
  | 'r' => '\r'
  | '0' => '\x00'
  | c => c

/-- A word is a reserved word or an identifier. -/
def wordKind (cs : List Char) : TokenKind :=
  let text := String.ofList cs
  match Keyword.ofSpelling? text with
  | some word => .keyword word
  | none => .ident text

/-- The value of a whole number, if it fits 64 bits. -/
def wholeKind (cs : List Char) : Except EvalError TokenKind :=
  let text := cs.filter (· != '_')
  match Text.readInt .signed64 text with
  | .ok n => .ok (.int (Int64.ofInt n))
  | .error _ => .error (.invalidNumber (String.ofList text))

/-- The value of a number with a point. -/
def pointKind (cs : List Char) : Except EvalError TokenKind :=
  let text := cs.filter (· != '_')
  match Decimal.readFloat text with
  | some x => .ok (.float x)
  | none => .error (.invalidNumber (String.ofList text))

/-- What follows a point when a digit follows it, so that the point belongs to
the number before it. -/
def fraction? : List Char → Option (List Char)
  | '.' :: d :: cs => if isDigit d then some (d :: cs) else none
  | _ => none

/-- The string up to the closing quote, the rest, and the bytes consumed. -/
def scanString (quote : Char) (value : List Char) (bytes : Nat) :
    List Char → Option (String × List Char × Nat)
  | [] => none
  | c :: cs =>
    if c = quote then some (String.ofList value.reverse, cs, bytes + c.utf8Size)
    else if c = '\\' then
      match cs with
      | [] => none
      | e :: cs => scanString quote (unescape e :: value) (bytes + c.utf8Size + e.utf8Size) cs
    else scanString quote (c :: value) (bytes + c.utf8Size) cs

theorem scanString_length {quote : Char} {value : List Char} {bytes : Nat} {cs : List Char}
    {r : String × List Char × Nat} (h : scanString quote value bytes cs = some r) :
    r.2.1.length < cs.length := by
  fun_induction scanString quote value bytes cs <;> grind

/-- The kind of a sign of one character. -/
def single? : Char → Option Symbol
  | '+' => some .plus
  | '-' => some .minus
  | '*' => some .star
  | '/' => some .slash
  | '%' => some .percent
  | '.' => some .dot
  | ',' => some .comma
  | '(' => some .leftParen
  | ')' => some .rightParen
  | '[' => some .leftBracket
  | ']' => some .rightBracket
  | '<' => some .lt
  | '>' => some .gt
  | _ => none

/-- The kind of a sign that an equals sign completes. -/
def withEquals? : Char → Option Symbol
  | '=' => some .eq
  | '!' => some .ne
  | '<' => some .le
  | '>' => some .ge
  | _ => none

/-- A token read off the front of `cs`: its kind, the unread rest, and the bytes
that were consumed. -/
structure Lexeme (cs : List Char) where
  kind : TokenKind
  rest : List Char
  bytes : Nat
  shorter : rest.length < cs.length

theorem length_dropWhile_le (p : Char → Bool) (cs : List Char) :
    (cs.dropWhile p).length ≤ cs.length :=
  (List.dropWhile_sublist p).length_le

/-- A sign of one or two characters. -/
def scanSign (position : Nat) (c : Char) (cs : List Char) :
    Except EvalError (Lexeme (c :: cs)) :=
  match withEquals? c, cs with
  | some sign, '=' :: rest => .ok ⟨.symbol sign, rest, 2, by simp only [List.length_cons]; omega⟩
  | _, rest =>
    match single? c with
    | some sign => .ok ⟨.symbol sign, rest, 1, by simp⟩
    | none => .error (.unexpectedChar c position)

/-- The number that begins with the digit `c`. -/
def scanNumber (c : Char) (cs : List Char) : Except EvalError (Lexeme (c :: cs)) :=
  let whole := c :: cs.takeWhile isNumeralChar
  let rest := cs.dropWhile isNumeralChar
  have bound : rest.length ≤ cs.length := length_dropWhile_le _ _
  match h : fraction? rest with
  | none => do
    let kind ← wholeKind whole
    return ⟨kind, rest, whole.length, by simp only [List.length_cons]; omega⟩
  | some ds => do
    let part := ds.takeWhile isNumeralChar
    let kind ← pointKind (whole ++ '.' :: part)
    return ⟨kind, ds.dropWhile isNumeralChar, whole.length + 1 + part.length, by
      have : ds.length < rest.length := by
        unfold fraction? at h
        grind
      have := length_dropWhile_le isNumeralChar ds
      simp only [List.length_cons]
      omega⟩

/-- The token that begins with the character `c`. -/
def scan (position : Nat) (c : Char) (cs : List Char) : Except EvalError (Lexeme (c :: cs)) :=
  if isWordStart c then
    let tail := cs.takeWhile isWordChar
    .ok ⟨wordKind (c :: tail), cs.dropWhile isWordChar, tail.length + 1, by
      have := length_dropWhile_le isWordChar cs
      simp only [List.length_cons]
      omega⟩
  else if isDigit c then scanNumber c cs
  else if c = '"' || c = '\'' then
    match h : scanString c [] 0 cs with
    | none => .error (.unterminatedString position)
    | some (value, rest, bytes) => .ok ⟨.str value, rest, bytes + 1, by
        have : rest.length < cs.length := scanString_length h
        simp only [List.length_cons]
        omega⟩
  else scanSign position c cs

/-- The tokens of `cs`, which begins at byte `position`; those read before are
in `acc`, last first. -/
def tokensFrom (acc : List Token) (position : Nat) :
    List Char → Except EvalError (List Token)
  | [] => .ok (⟨.eof, position⟩ :: acc).reverse
  | c :: cs =>
    if isBlank c then tokensFrom acc (position + c.utf8Size) cs
    else
      match scan position c cs with
      | .error e => .error e
      | .ok lexeme => tokensFrom (⟨lexeme.kind, position⟩ :: acc) (position + lexeme.bytes) lexeme.rest
termination_by cs => cs.length
decreasing_by
  · simp
  · exact lexeme.shorter

/-- The tokens of a text, closed by the end token. -/
def tokenize (source : String) : Except EvalError (List Token) :=
  tokensFrom [] 0 source.toList

end Lexer
end LiveProbe
