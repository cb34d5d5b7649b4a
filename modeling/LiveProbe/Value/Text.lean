import LiveProbe.Decimal.Fixed
import LiveProbe.Limits
import LiveProbe.Text.Lossy
import LiveProbe.Value.Heap

/-!
# Texts of values

The text that shows a value as the program would write it.

**Algorithm.** The containers that are open are carried along. A container that
is open already is elided, and so is every container once the nesting limit is
reached; therefore the recursion ends on shared and cyclic values alike. The
arguments of an exception count as one open container, which no value can be.
-/

namespace LiveProbe
namespace Heap

/-- Texts with commas between them. -/
def commas (texts : List String) : String := String.intercalate ", " texts

/-- A tuple of one item keeps its comma. -/
def tupleText : List String → String
  | [text] => "(" ++ text ++ ",)"
  | texts => "(" ++ commas texts ++ ")"

/-- The empty braces stand for a dictionary, so the empty set has a name. -/
def setText : List String → String
  | [] => "set()"
  | texts => "\x7b" ++ commas texts ++ "\x7d"

/-- What stands for a container beyond the nesting limit. -/
def ellipsis : String := "..."

/-- The text of a value inside the containers `opened`, with room for `room`
further ones. -/
def textWithin (h : Heap) (room : Nat) (opened : List Ref) (r : Ref) : String :=
  match h.read r with
  | .none => "None"
  | .bool true => "True"
  | .bool false => "False"
  | .int i => toString i.toInt
  | .float x => Decimal.valueText x
  | .str s => "'" ++ s ++ "'"
  | .bytes bs => "b'" ++ Text.lossy bs ++ "'"
  | .list items =>
    match room with
    | 0 => ellipsis
    | room + 1 =>
      if r ∈ opened then "[...]"
      else "[" ++ commas (items.map (textWithin h room (r :: opened))) ++ "]"
  | .tuple items =>
    match room with
    | 0 => ellipsis
    | room + 1 =>
      if r ∈ opened then "(...)"
      else tupleText (items.map (textWithin h room (r :: opened)))
  | .set items =>
    match room with
    | 0 => ellipsis
    | room + 1 =>
      if r ∈ opened then "\x7b...\x7d"
      else setText (items.map (textWithin h room (r :: opened)))
  | .dict entries =>
    match room with
    | 0 => ellipsis
    | room + 1 =>
      if r ∈ opened then "\x7b...\x7d"
      else "\x7b" ++ commas (entries.map fun e =>
        textWithin h room (r :: opened) e.1 ++ ": " ++ textWithin h room (r :: opened) e.2) ++ "\x7d"
  | .object typeName _ text => text.getD ("<" ++ typeName ++ " object>")
  | .exception typeName args =>
    match room with
    | 0 => typeName ++ ellipsis
    | room + 1 => typeName ++ tupleText (args.map (textWithin h room opened))
  | .iterator typeName => "<" ++ typeName ++ " object>"
  | .callable name => "<function " ++ name ++ ">"
  | .foreign _ text => text

/-- The text of a value as the program would write it. -/
def textOf (h : Heap) (r : Ref) : String := h.textWithin Limits.valueNesting [] r

/-- The text of a value for display: strings stand without quotes. -/
def display (h : Heap) (r : Ref) : String :=
  match h.read r with
  | .str s => s
  | _ => h.textOf r

end Heap
end LiveProbe
