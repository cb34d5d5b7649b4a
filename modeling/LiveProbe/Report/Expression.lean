import LiveProbe.Expr.Syntax
import LiveProbe.Expr.Token
import LiveProbe.Report.Basic

/-!
# Reports of expressions

Tokens and syntax trees.
-/

namespace LiveProbe

open Json

namespace TokenKind

/-- The name of a keyword. -/
def keywordName : Keyword → String
  | .none => "None"
  | .true => "True"
  | .false => "False"
  | .and => "And"
  | .or => "Or"
  | .not => "Not"
  | .mem => "In"
  | .same => "Is"

/-- The name of a symbol. -/
def symbolName : Symbol → String
  | .eq => "Eq"
  | .ne => "Ne"
  | .lt => "Lt"
  | .le => "Le"
  | .gt => "Gt"
  | .ge => "Ge"
  | .plus => "Plus"
  | .minus => "Minus"
  | .star => "Star"
  | .slash => "Slash"
  | .percent => "Percent"
  | .dot => "Dot"
  | .comma => "Comma"
  | .leftParen => "LParen"
  | .rightParen => "RParen"
  | .leftBracket => "LBracket"
  | .rightBracket => "RBracket"

/-- The name of a kind. -/
def kindName : TokenKind → String
  | .int _ => "Int"
  | .float _ => "Float"
  | .str _ => "Str"
  | .ident _ => "Ident"
  | .eof => "Eof"
  | .keyword w => keywordName w
  | .symbol s => symbolName s

/-- The value that a token carries. -/
def payload : TokenKind → Json
  | .int v => decimal v.toInt
  | .float v => ofFloat v
  | .str v => ofString v
  | .ident v => ofString v
  | _ => .null

end TokenKind

/-- The report of a token: kind, value, wording and place. -/
def Token.report (t : Token) : Json :=
  .array [ofString t.kind.kindName, t.kind.payload, ofString t.kind.describe, ofNat t.position]

namespace Expr

mutual

/-- The report of a tree: the name of its root, then its parts. -/
def report : Expr → Json
  | .none => .array [ofString "none"]
  | .bool b => .array [ofString "bool", .bool b]
  | .int i => .array [ofString "int", decimal i.toInt]
  | .float x => .array [ofString "float", ofFloat x]
  | .str s => .array [ofString "str", ofString s]
  | .list es => .array (ofString "list" :: reportAll es)
  | .name n => .array [ofString "name", ofString n]
  | .field t n => .array [ofString "attr", report t, ofString n]
  | .index t k => .array [ofString "index", report t, report k]
  | .call f es => .array (ofString "call" :: ofString f :: reportAll es)
  | .negate e => .array [ofString "neg", report e]
  | .not e => .array [ofString "not", report e]
  | .and l r => .array [ofString "and", report l, report r]
  | .or l r => .array [ofString "or", report l, report r]
  | .binary op l r => .array [ofString op.symbol, report l, report r]
  | .compare e ls => .array (ofString "compare" :: report e :: reportLinks ls)

/-- The reports of several trees. -/
def reportAll : List Expr → List Json
  | [] => []
  | e :: es => report e :: reportAll es

/-- The operators and operands of a chain. -/
def reportLinks : List (CompareOp × Expr) → List Json
  | [] => []
  | (op, e) :: ls => ofString op.symbol :: report e :: reportLinks ls

end

end Expr
end LiveProbe
