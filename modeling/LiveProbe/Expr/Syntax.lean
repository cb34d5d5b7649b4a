/-!
# Syntax trees

The trees of the expression language.
-/

namespace LiveProbe

/-- Comparison operators. -/
inductive CompareOp
  | eq | ne | lt | le | gt | ge | mem | notMem | same | notSame
  deriving DecidableEq, Repr

/-- Arithmetic operators. -/
inductive BinaryOp
  | add | sub | mul | div | mod
  deriving DecidableEq, Repr

/-- The spelling of a comparison. -/
def CompareOp.symbol : CompareOp → String
  | eq => "=="
  | ne => "!="
  | lt => "<"
  | le => "<="
  | gt => ">"
  | ge => ">="
  | mem => "in"
  | notMem => "not in"
  | same => "is"
  | notSame => "is not"

/-- The spelling of an arithmetic operator. -/
def BinaryOp.symbol : BinaryOp → String
  | add => "+"
  | sub => "-"
  | mul => "*"
  | div => "/"
  | mod => "%"

/-- Expressions. A chain of comparisons is one node. -/
inductive Expr
  | none
  | bool (value : Bool)
  | int (value : Int64)
  | float (value : Float)
  | str (value : String)
  | list (items : List Expr)
  | name (name : String)
  | field (target : Expr) (name : String)
  | index (target key : Expr)
  | call (function : String) (args : List Expr)
  | negate (operand : Expr)
  | not (operand : Expr)
  | and (left right : Expr)
  | or (left right : Expr)
  | binary (op : BinaryOp) (left right : Expr)
  | compare (first : Expr) (links : List (CompareOp × Expr))

namespace Expr

mutual

/-- The largest number of inner nodes on a path from the root to a leaf. -/
def height : Expr → Nat
  | .none | .bool _ | .int _ | .float _ | .str _ | .name _ => 0
  | .list items => heightItems items + 1
  | .field target _ => target.height + 1
  | .index target key => max target.height key.height + 1
  | .call _ args => heightItems args + 1
  | .negate operand => operand.height + 1
  | .not operand => operand.height + 1
  | .and left right => max left.height right.height + 1
  | .or left right => max left.height right.height + 1
  | .binary _ left right => max left.height right.height + 1
  | .compare first links => max first.height (heightLinks links) + 1

/-- The largest height in a list. -/
def heightItems : List Expr → Nat
  | [] => 0
  | e :: es => max e.height (heightItems es)

/-- The largest height in the links of a chain of comparisons. -/
def heightLinks : List (CompareOp × Expr) → Nat
  | [] => 0
  | (_, e) :: links => max e.height (heightLinks links)

end

end Expr
end LiveProbe
