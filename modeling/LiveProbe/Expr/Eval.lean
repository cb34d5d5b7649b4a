import LiveProbe.Decimal.Reader
import LiveProbe.Expr.Syntax
import LiveProbe.Text.Blank
import LiveProbe.Value.Equality
import LiveProbe.Value.Text

/-!
# Evaluation

The value of a tree under bindings. Values are read from the heap and results
are fresh cells, so evaluation never changes a value of the observed program.
-/

namespace LiveProbe

/-- Names with their values. Of several bindings of one name the last counts. -/
structure Bindings where
  pairs : List (String × Ref)

namespace Bindings

/-- The value bound to a name. -/
def get? (b : Bindings) (name : String) : Option Ref :=
  (b.pairs.reverse.find? fun p => p.1 == name).map Prod.snd

/-- The number of distinct names. -/
def count (b : Bindings) : Nat := (b.pairs.map Prod.fst).eraseDups.length

end Bindings

/-- A computation on the heap that may fail. -/
abbrev Evaluating := StateT Heap (Except EvalError)

namespace Eval

/-- The fault of two values that an operation does not join. -/
def mismatch (op : String) (v w : Value) : EvalError :=
  .typeMismatch op v.typeName w.typeName

/-- A new value. -/
def fresh (v : Value) : Evaluating Ref := modifyGet fun h => h.alloc v

/-- The value of a cell. -/
def valueOf (r : Ref) : Evaluating Value := return (← get).read r

/-- An integer result. -/
def integer : Option Int64 → Evaluating Ref
  | some i => fresh (.int i)
  | none => throw .overflow

/-! ### Access -/

/-- The field of a value. Objects have their fields, and exceptions their
arguments under the name `args`. -/
def fieldOf (target : Ref) (name : String) : Evaluating Ref := do
  let v ← valueOf target
  let missing := EvalError.noAttribute v.typeName name
  match v with
  | .object _ fields _ =>
    match fields.find? fun f => f.1 == name with
    | some f => return f.2
    | none => throw missing
  | .exception _ args => if name = "args" then fresh (.tuple args) else throw missing
  | _ => throw missing

/-- The place that an index names in a row of `length` items; a negative index
counts from the end. -/
def place (v : Value) (length : Nat) : Except EvalError Nat :=
  let resolve (i : Int) : Except EvalError Nat :=
    let adjusted := if i < 0 then i + length else i
    if 0 ≤ adjusted ∧ adjusted < length then .ok adjusted.toNat
    else .error (.indexOutOfRange i length)
  match v with
  | .int i => resolve i.toInt
  | .bool b => resolve (bit b).toInt
  | other => .error (.typeMismatch "[]" "sequence" other.typeName)

/-- The first value whose key equals `key`. -/
def lookup (h : Heap) (key : Ref) : List (Ref × Ref) → Except EvalError (Option Ref)
  | [] => return none
  | (k, v) :: entries => do
    if ← h.equal k key then return some v else lookup h key entries

/-- The item of a row. -/
def itemOf (items : List Ref) (key : Value) : Except EvalError Ref := do
  return items.getD (← place key items.length) 0

/-- The part of a value at an index or key. -/
def indexInto (target key : Ref) : Evaluating Ref := do
  let v ← valueOf target
  let k ← valueOf key
  match v with
  | .list items | .tuple items => itemOf items k
  | .str s => do
    let cs := s.toList
    let i ← place k cs.length
    fresh (.str (String.singleton (cs.getD i ' ')))
  | .dict entries => do
    let h ← get
    match ← lookup h key entries with
    | some value => return value
    | none => throw (.keyNotFound (h.textOf key))
  | other => throw (mismatch "[]" other k)

/-! ### Functions -/

/-- The only argument of a function. -/
def single (function : String) : List Ref → Except EvalError Ref
  | [arg] => .ok arg
  | args => .error (.arity function 1 args.length)

/-- The fault of a value that a function cannot convert. -/
def invalid (function : String) (arg : Ref) : Evaluating Ref := do
  throw (.invalidConversion function ((← get).textOf arg))

/-- The length of a value. -/
def lengthOf (arg : Ref) : Evaluating Ref := do
  let v ← valueOf arg
  match v.length? with
  | some n => fresh (.int (Int64.ofNat n))
  | none => throw (.typeMismatch "len()" v.typeName "")

/-- The whole part of a floating-point number, clamped to 64 bits. -/
def wholePart? (x : Float) : Option Int64 :=
  match Decimal.Binary.ofFloat x with
  | .finite negative m => some (clamp (if negative then -(m.truncate : Int) else m.truncate))
  | _ => none

/-- Conversion to an integer. -/
def toInteger (arg : Ref) : Evaluating Ref := do
  match ← valueOf arg with
  | .int i => fresh (.int i)
  | .bool b => fresh (.int (bit b))
  | .float x =>
    match wholePart? x with
    | some i => fresh (.int i)
    | none => invalid "int" arg
  | .str s =>
    match Text.readInt .signed64 (Text.trimChars s.toList) with
    | .ok n => fresh (.int (Int64.ofInt n))
    | .error _ => invalid "int" arg
  | _ => invalid "int" arg

/-- Conversion to a floating-point number. -/
def toFloating (arg : Ref) : Evaluating Ref := do
  match ← valueOf arg with
  | .int i => fresh (.float (nearestFloat i))
  | .bool b => fresh (.float (nearestFloat (bit b)))
  | .float x => fresh (.float x)
  | .str s =>
    match Decimal.readFloat (Text.trimChars s.toList) with
    | some x => fresh (.float x)
    | none => invalid "float" arg
  | _ => invalid "float" arg

/-- Calls a function by name. -/
def call (function : String) (args : List Ref) : Evaluating Ref :=
  match function with
  | "len" => do lengthOf (← single function args)
  | "str" => do
    let arg ← single function args
    fresh (.str ((← get).display arg))
  | "bool" => do fresh (.bool (← valueOf (← single function args)).isTruthy)
  | "type" => do fresh (.str (← valueOf (← single function args)).typeName)
  | "int" => do toInteger (← single function args)
  | "float" => do toFloating (← single function args)
  | other => throw (.notCallable other)

/-! ### Operators -/

/-- Arithmetic on integers. Results that do not fit 64 bits are faults, the
quotient is a floating-point number, and the remainder has the sign of the
divisor. The remainder of the least integer by minus one counts as a fault,
because its quotient does not fit. -/
def integers (op : BinaryOp) (a b : Int64) : Evaluating Ref :=
  match op with
  | .add => integer (fit? (a.toInt + b.toInt))
  | .sub => integer (fit? (a.toInt - b.toInt))
  | .mul => integer (fit? (a.toInt * b.toInt))
  | .div =>
    if b = 0 then throw .divisionByZero
    else fresh (.float (nearestFloat a / nearestFloat b))
  | .mod =>
    if b = 0 then throw .divisionByZero
    else if a = Int64.minValue ∧ b = -1 then throw .overflow
    else integer (fit? (Int.fmod a.toInt b.toInt))

/-- The remainder with the sign of the divisor. -/
def floorRemainder (x y : Float) : Float :=
  let r := Decimal.remainder x y
  if r != 0 && (r < 0) != (y < 0) then r + y else r

/-- Arithmetic on floating-point numbers. -/
def floats (op : BinaryOp) (x y : Float) : Evaluating Ref :=
  match op with
  | .add => fresh (.float (x + y))
  | .sub => fresh (.float (x - y))
  | .mul => fresh (.float (x * y))
  | .div => if y == 0 then throw .divisionByZero else fresh (.float (x / y))
  | .mod => if y == 0 then throw .divisionByZero else fresh (.float (floorRemainder x y))

/-- Arithmetic on numbers; anything else is a fault. -/
def arithmetic (op : BinaryOp) (v w : Value) : Evaluating Ref :=
  match v.number?, w.number? with
  | some (.int a), some (.int b) => integers op a b
  | some a, some b => floats op a.toFloat b.toFloat
  | _, _ => throw (mismatch op.symbol v w)

/-- A binary operation. Strings, lists and tuples are joined by addition. -/
def binary (op : BinaryOp) (left right : Ref) : Evaluating Ref := do
  let v ← valueOf left
  let w ← valueOf right
  match op, v, w with
  | .add, .str a, .str b => fresh (.str (a ++ b))
  | .add, .list a, .list b => fresh (.list (a ++ b))
  | .add, .tuple a, .tuple b => fresh (.tuple (a ++ b))
  | op, v, w => arithmetic op v w

/-- The negative of a number. -/
def negate (operand : Ref) : Evaluating Ref := do
  match ← valueOf operand with
  | .int i => integer (fit? (-i.toInt))
  | .float x => fresh (.float (-x))
  | .bool b => fresh (.int (-bit b))
  | v => throw (.typeMismatch "unary -" v.typeName "")

/-- Identity. Null and the two truth values exist once each. -/
def sameValue (h : Heap) (left right : Ref) : Bool :=
  match h.read left, h.read right with
  | .none, .none => true
  | .bool a, .bool b => a == b
  | _, _ => left == right

/-- Strings are ordered by their characters, numbers by their values. -/
def order? (v w : Value) : Option Ordering :=
  match v, w with
  | .str a, .str b => some (if a < b then .lt else if a = b then .eq else .gt)
  | v, w =>
    match v.number?, w.number? with
    | some a, some b => a.order? b
    | _, _ => none

/-- Some item equals the needle. -/
def anyEqual (h : Heap) (needle : Ref) : List Ref → Except EvalError Bool
  | [] => return false
  | item :: items => do
    if ← h.equal item needle then return true else anyEqual h needle items

/-- The needle is part of the haystack: of a string, among the items of a list,
tuple or set, or among the keys of a dictionary. -/
def contains (h : Heap) (haystack needle : Ref) : Except EvalError Bool :=
  match h.read haystack with
  | .str s =>
    match h.read needle with
    | .str n => return s.contains n
    | other => throw (mismatch "in" other (.str s))
  | .list items | .tuple items | .set items => anyEqual h needle items
  | .dict entries => anyEqual h needle (entries.map Prod.fst)
  | other => throw (mismatch "in" (h.read needle) other)

/-- The outcome of an ordering operator. -/
def holds (op : CompareOp) (o : Ordering) : Bool :=
  match op with
  | .lt => o == .lt
  | .le => o != .gt
  | .gt => o == .gt
  | _ => o != .lt

/-- One comparison. -/
def compare (h : Heap) (op : CompareOp) (left right : Ref) : Except EvalError Bool :=
  match op with
  | .eq => h.equal left right
  | .ne => return !(← h.equal left right)
  | .same => return sameValue h left right
  | .notSame => return !sameValue h left right
  | .mem => contains h right left
  | .notMem => return !(← contains h right left)
  | op =>
    match order? (h.read left) (h.read right) with
    | some o => return holds op o
    | none => throw (mismatch op.symbol (h.read left) (h.read right))

/-! ### Trees -/

mutual

/-- The value of a tree. -/
def evaluate (b : Bindings) : Expr → Evaluating Ref
  | .none => fresh .none
  | .bool value => fresh (.bool value)
  | .int value => fresh (.int value)
  | .float value => fresh (.float value)
  | .str value => fresh (.str value)
  | .list items => do
    let values ← evaluateAll b items
    fresh (.list values)
  | .name name =>
    match b.get? name with
    | some r => return r
    | none => throw (.unknownName name)
  | .field target name => do
    let target ← evaluate b target
    fieldOf target name
  | .index target key => do
    let target ← evaluate b target
    let key ← evaluate b key
    indexInto target key
  | .call function args => do
    let args ← evaluateAll b args
    call function args
  | .negate operand => do
    let value ← evaluate b operand
    negate value
  | .not operand => do
    let value ← evaluate b operand
    fresh (.bool !(← valueOf value).isTruthy)
  | .and left right => do
    let value ← evaluate b left
    if (← valueOf value).isTruthy then evaluate b right else return value
  | .or left right => do
    let value ← evaluate b left
    if (← valueOf value).isTruthy then return value else evaluate b right
  | .binary op left right => do
    let left ← evaluate b left
    let right ← evaluate b right
    binary op left right
  | .compare first links => do
    let left ← evaluate b first
    evaluateLinks b left links

/-- The values of trees, in order. -/
def evaluateAll (b : Bindings) : List Expr → Evaluating (List Ref)
  | [] => return []
  | e :: es => do
    let value ← evaluate b e
    let values ← evaluateAll b es
    return value :: values

/-- A chain of comparisons, each with the operand of the one before; the first
that fails ends it. -/
def evaluateLinks (b : Bindings) (left : Ref) : List (CompareOp × Expr) → Evaluating Ref
  | [] => fresh (.bool true)
  | (op, e) :: links => do
    let right ← evaluate b e
    if ← compare (← get) op left right then evaluateLinks b right links
    else fresh (.bool false)

end

end Eval
end LiveProbe
