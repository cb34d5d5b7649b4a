import LiveProbe.Decimal.Shortest

/-!
# Tokens

The kinds of tokens of the expression language, their spelling and their wording
in messages.
-/

namespace LiveProbe

/-- Reserved words. Membership is spelled `in` and identity `is`. -/
inductive Keyword
  | none | true | false | and | or | not | mem | same
  deriving DecidableEq, Repr

/-- Operators and punctuation. -/
inductive Symbol
  | eq | ne | lt | le | gt | ge
  | plus | minus | star | slash | percent
  | dot | comma | leftParen | rightParen | leftBracket | rightBracket
  deriving DecidableEq, Repr

/-- Kinds of tokens. -/
inductive TokenKind
  | int (value : Int64)
  | float (value : Float)
  | str (value : String)
  | ident (name : String)
  | keyword (word : Keyword)
  | symbol (sign : Symbol)
  | eof

/-- A token and the byte offset at which it starts. -/
structure Token where
  kind : TokenKind
  position : Nat

/-- The spelling of a reserved word. -/
def Keyword.spelling : Keyword → String
  | none => "None"
  | true => "True"
  | false => "False"
  | and => "and"
  | or => "or"
  | not => "not"
  | mem => "in"
  | same => "is"

/-- All reserved words. -/
def Keyword.all : List Keyword := [none, true, false, and, or, not, mem, same]

/-- The reserved word with a given spelling. -/
def Keyword.ofSpelling? (text : String) : Option Keyword :=
  all.find? fun word => word.spelling == text

/-- The spelling of a sign. -/
def Symbol.spelling : Symbol → String
  | eq => "=="
  | ne => "!="
  | lt => "<"
  | le => "<="
  | gt => ">"
  | ge => ">="
  | plus => "+"
  | minus => "-"
  | star => "*"
  | slash => "/"
  | percent => "%"
  | dot => "."
  | comma => ","
  | leftParen => "("
  | rightParen => ")"
  | leftBracket => "["
  | rightBracket => "]"

/-- The wording of a token in messages. -/
def TokenKind.describe : TokenKind → String
  | int value => toString value.toInt
  | float value => Decimal.plainText value
  | str value => s!"'{value}'"
  | ident name => name
  | keyword word => word.spelling
  | symbol sign => sign.spelling
  | eof => "end of expression"

end LiveProbe
