/-!
# Live values

The values of an observed program, and their coarse classification. Values refer
to one another by identity, so that sharing and cycles are plain data.
-/

namespace LiveProbe

/-- Identity of a live value. -/
abbrev Ref := Nat

/-- One live value. Sets and dictionaries keep the order in which their entries
were added, duplicates included. -/
inductive Value
  | none
  | bool (value : Bool)
  | int (value : Int64)
  | float (value : Float)
  | str (value : String)
  | bytes (value : List UInt8)
  | list (items : List Ref)
  | tuple (items : List Ref)
  | set (items : List Ref)
  | dict (entries : List (Ref × Ref))
  | object (typeName : String) (fields : List (String × Ref)) (text : Option String)
  | exception (typeName : String) (args : List Ref)
  | iterator (typeName : String)
  | callable (name : String)
  | foreign (typeName text : String)

/-- Coarse classification of values. -/
inductive ValueKind
  | primitive | sequence | set | mapping | object | exception | iterator | other
  deriving DecidableEq, Repr

namespace Value

/-- The name of a value's type. -/
def typeName : Value → String
  | .none => "NoneType"
  | .bool _ => "bool"
  | .int _ => "int"
  | .float _ => "float"
  | .str _ => "str"
  | .bytes _ => "bytes"
  | .list _ => "list"
  | .tuple _ => "tuple"
  | .set _ => "set"
  | .dict _ => "dict"
  | .object typeName _ _ => typeName
  | .exception typeName _ => typeName
  | .iterator typeName => typeName
  | .callable _ => "function"
  | .foreign typeName _ => typeName

/-- The class of a value. -/
def kind : Value → ValueKind
  | .none | .bool _ | .int _ | .float _ | .str _ | .bytes _ => .primitive
  | .list _ | .tuple _ => .sequence
  | .set _ => .set
  | .dict _ => .mapping
  | .object .. => .object
  | .exception .. => .exception
  | .iterator _ => .iterator
  | .callable _ | .foreign .. => .other

/-- The number of elements, characters or bytes, where a value has any. -/
def length? : Value → Option Nat
  | .str s => some s.length
  | .bytes bs => some bs.length
  | .list items | .tuple items | .set items => some items.length
  | .dict entries => some entries.length
  | _ => Option.none

/-- The value is the null value. -/
def isNone : Value → Bool
  | .none => true
  | _ => false

/-- The truth of a value: null, zero and the empty are false. -/
def isTruthy (v : Value) : Bool :=
  match v with
  | .none => false
  | .bool b => b
  | .int i => i != 0
  | .float x => x != 0
  | v => v.length? != some 0

/-- Appends an item to a list or set; other values stay as they are. -/
def pushItem (v : Value) (item : Ref) : Value :=
  match v with
  | .list items => .list (items ++ [item])
  | .set items => .set (items ++ [item])
  | v => v

/-- Replaces the first field of a name, or appends one. -/
def putField (name : String) (value : Ref) : List (String × Ref) → List (String × Ref)
  | [] => [(name, value)]
  | f :: fs => if f.1 = name then (name, value) :: fs else f :: putField name value fs

/-- Sets a field of an object; other values stay as they are. -/
def setField (v : Value) (name : String) (value : Ref) : Value :=
  match v with
  | .object typeName fields text => .object typeName (putField name value fields) text
  | v => v

/-- Appends an entry to a dictionary; other values stay as they are. -/
def insertEntry (v : Value) (key value : Ref) : Value :=
  match v with
  | .dict entries => .dict (entries ++ [(key, value)])
  | v => v

end Value
end LiveProbe
