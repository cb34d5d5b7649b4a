import LiveProbe.Value.Text

/-!
# Layouts of values

The text of a value as a row of fragments, some of them other values.

**Layout.**  A container has a text that stands for it inside itself, and fragments that are printed
elsewhere (`Printing.Layout`).  The arguments of an exception are laid out as a tuple.

**Results.**
* `Heap.textWithin_leaf`, `Heap.textWithin_zero`, `Heap.textWithin_succ`: the text of a value by
  its shape, for all containers alike.
* `Heap.textWithin_exception_zero`, `Heap.textWithin_exception_succ`: the same for exceptions.
-/

namespace LiveProbe
namespace Printing

/-! ### Layouts -/

/-- A fragment of a text: itself a text, or a value to be printed at its place. -/
inductive Fragment
  | text (s : String)
  | value (r : Ref)

namespace Fragment

/-- The text of a fragment, given those of values. -/
def textBy (print : Ref → String) : Fragment → String
  | text s => s
  | value r => print r

/-- The text of a fragment, given those that values may have. -/
def textBy? (print : Ref → Option String) : Fragment → Option String
  | text s => some s
  | value r => print r

/-- Rows of fragments with commas between them. -/
def separated : List (List Fragment) → List Fragment
  | [] => []
  | [row] => row
  | row :: next :: rows => row ++ text ", " :: separated (next :: rows)

end Fragment

/-- What stands for a container inside itself, and the fragments of its text elsewhere. -/
structure Layout where
  elided : String
  fragments : List Fragment

namespace Layout

/-- Fragments between two texts. -/
def between (before : String) (fragments : List Fragment) (behind : String) : List Fragment :=
  Fragment.text before :: fragments ++ [Fragment.text behind]

/-- The items of a container with commas between them. -/
def items (rs : List Ref) : List Fragment := Fragment.separated (rs.map fun r => [.value r])

/-- A list. -/
def list (rs : List Ref) : Layout where
  elided := "[...]"
  fragments := between "[" (items rs) "]"

/-- A tuple. -/
def tuple (rs : List Ref) : Layout where
  elided := "(...)"
  fragments :=
    match rs with
    | [r] => between "(" [.value r] ",)"
    | rs => between "(" (items rs) ")"

/-- A set. -/
def set (rs : List Ref) : Layout where
  elided := "\x7b...\x7d"
  fragments :=
    match rs with
    | [] => [.text "set()"]
    | rs => between "\x7b" (items rs) "\x7d"

/-- A dictionary. -/
def dict (entries : List (Ref × Ref)) : Layout where
  elided := "\x7b...\x7d"
  fragments := between "\x7b"
    (Fragment.separated (entries.map fun e => [.value e.1, .text ": ", .value e.2])) "\x7d"

/-- The text of all fragments, given those of values. -/
def textBy (print : Ref → String) (l : Layout) : String :=
  String.join (l.fragments.map (Fragment.textBy print))

/-- The text of all fragments, if all values have one. -/
def textBy? (print : Ref → Option String) (l : Layout) : Option String :=
  (l.fragments.mapM (Fragment.textBy? print)).map String.join

variable (print : Ref → String)

/-- Rows are written with a comma and a blank between them. -/
theorem join_separated
    (rows : List (List Fragment)) :
    String.join ((Fragment.separated rows).map (Fragment.textBy print)) =
      Heap.commas (rows.map fun row => String.join (row.map (Fragment.textBy print))) := by
  induction rows with
  | nil => rfl
  | cons row rows ih =>
      cases rows with
      | nil => exact String.intercalate_singleton.symm
      | cons next rows =>
          rw [Fragment.separated, List.map_append, List.map_cons, String.join_append,
            String.join_cons, ih]
          simp only [Heap.commas, List.map_cons, String.intercalate_cons_cons,
            String.append_assoc, Fragment.textBy]

theorem join_items
    (rs : List Ref) :
    String.join ((items rs).map (Fragment.textBy print)) = Heap.commas (rs.map print) := by
  have hrow (r : Ref) : String.join ([Fragment.value r].map (Fragment.textBy print)) = print r := by
    simp [Fragment.textBy]
  rw [items, join_separated, List.map_map]
  simp only [Function.comp_def, hrow]

theorem join_between
    (before : String) (fragments : List Fragment) (behind : String) :
    String.join ((between before fragments behind).map (Fragment.textBy print)) =
      before ++ String.join (fragments.map (Fragment.textBy print)) ++ behind := by
  simp [between, Fragment.textBy, String.append_assoc]

theorem join_between_items
    (before : String) (rs : List Ref) (behind : String) :
    String.join ((between before (items rs) behind).map (Fragment.textBy print)) =
      before ++ Heap.commas (rs.map print) ++ behind := by
  rw [join_between, join_items]

theorem textBy_list
    (rs : List Ref) :
    (list rs).textBy print = "[" ++ Heap.commas (rs.map print) ++ "]" :=
  join_between_items print "[" rs "]"

/-- A tuple in parentheses, with a comma behind a single item. -/
theorem textBy_tuple
    (rs : List Ref) :
    (tuple rs).textBy print = Heap.tupleText (rs.map print) := by
  match rs with
  | [] | _ :: _ :: _ => exact join_between_items print "(" _ ")"
  | [r] =>
      refine (join_between print "(" [.value r] ",)").trans ?_
      simp [Fragment.textBy, Heap.tupleText]

/-- A set in braces, or as a call where it is empty. -/
theorem textBy_set
    (rs : List Ref) :
    (set rs).textBy print = Heap.setText (rs.map print) := by
  cases rs with
  | nil => rfl
  | cons r rs => exact join_between_items print "\x7b" (r :: rs) "\x7d"

/-- A dictionary in braces, with a colon between key and value. -/
theorem textBy_dict
    (entries : List (Ref × Ref)) :
    (dict entries).textBy print =
      "\x7b" ++ Heap.commas (entries.map fun e => print e.1 ++ ": " ++ print e.2) ++ "\x7d" := by
  have hrow (e : Ref × Ref) :
      String.join ([Fragment.value e.1, .text ": ", .value e.2].map (Fragment.textBy print)) =
        print e.1 ++ ": " ++ print e.2 := by
    simp [Fragment.textBy, String.append_assoc]
  rw [textBy, dict, join_between, join_separated, List.map_map]
  simp only [Function.comp_def, hrow]

end Layout

/-- How a value is printed. -/
inductive Shape
  | leaf (text : String)
  | container (layout : Layout)
  | exception (typeName : String) (args : List Ref)

/-- The values printed inside a value. -/
def Shape.IsPart : Shape → Ref → Prop
  | leaf _, _ => False
  | container layout, r => .value r ∈ layout.fragments
  | exception _ args, r => .value r ∈ (Layout.tuple args).fragments

end Printing

open Printing

/-- Lists, tuples, sets and dictionaries are containers.  Of an object the fields are not
printed. -/
def Value.shape : Value → Shape
  | .none => .leaf "None"
  | .bool true => .leaf "True"
  | .bool false => .leaf "False"
  | .int i => .leaf (toString i.toInt)
  | .float x => .leaf (Decimal.valueText x)
  | .str s => .leaf ("'" ++ s ++ "'")
  | .bytes bs => .leaf ("b'" ++ Text.lossy bs ++ "'")
  | .list rs => .container (.list rs)
  | .tuple rs => .container (.tuple rs)
  | .set rs => .container (.set rs)
  | .dict entries => .container (.dict entries)
  | .object typeName _ text => .leaf (text.getD ("<" ++ typeName ++ " object>"))
  | .exception typeName args => .exception typeName args
  | .iterator typeName => .leaf ("<" ++ typeName ++ " object>")
  | .callable name => .leaf ("<function " ++ name ++ ">")
  | .foreign _ text => .leaf text

/-- A container that is elided is told from one beyond the limit. -/
theorem Value.elided_ne_ellipsis
    {v : Value} {layout : Layout}
    (hv : v.shape = .container layout) :
    layout.elided ≠ Heap.ellipsis := by
  have hlist : "[...]" ≠ Heap.ellipsis := by decide
  have htuple : "(...)" ≠ Heap.ellipsis := by decide
  have hbraces : "\x7b...\x7d" ≠ Heap.ellipsis := by decide
  cases v with
  | bool b => cases b <;> cases hv
  | list => cases hv; exact hlist
  | tuple => cases hv; exact htuple
  | set | dict => cases hv; exact hbraces
  | _ => cases hv

namespace Heap

/-! ### Texts by shapes -/

section Texts

variable {h : Heap} {r : Ref} {layout : Layout}

theorem textWithin_leaf
    {text : String}
    (hr : (h.read r).shape = .leaf text)
    (room : Nat) (opened : List Ref) :
    h.textWithin room opened r = text := by
  unfold textWithin
  generalize h.read r = v at hr ⊢
  cases v with
  | bool b => cases b <;> cases hr <;> rfl
  | list | tuple | set | dict | exception => cases hr
  | _ => cases hr; rfl

/-- Beyond the limit a container is not looked into. -/
theorem textWithin_zero
    (hr : (h.read r).shape = .container layout)
    (opened : List Ref) :
    h.textWithin 0 opened r = ellipsis := by
  unfold textWithin
  generalize h.read r = v at hr ⊢
  cases v with
  | bool b => cases b <;> cases hr
  | list | tuple | set | dict => rfl
  | _ => cases hr

/-- Inside itself a container is elided; elsewhere its fragments are printed inside it. -/
theorem textWithin_succ
    (hr : (h.read r).shape = .container layout)
    (room : Nat) (opened : List Ref) :
    h.textWithin (room + 1) opened r =
      if r ∈ opened then layout.elided else layout.textBy (h.textWithin room (r :: opened)) := by
  rw [textWithin.eq_def]
  generalize h.read r = v at hr ⊢
  cases v with
  | bool b => cases b <;> cases hr
  | list rs => cases hr; rw [Layout.textBy_list]; rfl
  | tuple rs =>
      cases hr
      rw [Layout.textBy_tuple]
      match rs with
      | [] | [_] | _ :: _ :: _ => rfl
  | set rs =>
      cases hr
      rw [Layout.textBy_set]
      cases rs <;> rfl
  | dict entries => cases hr; rw [Layout.textBy_dict]; rfl
  | _ => cases hr

/-- Without room an exception is its type and an ellipsis. -/
theorem textWithin_exception_zero
    {typeName : String} {args : List Ref}
    (hr : (h.read r).shape = .exception typeName args)
    (opened : List Ref) :
    h.textWithin 0 opened r = typeName ++ ellipsis := by
  unfold textWithin
  generalize h.read r = v at hr ⊢
  cases v with
  | bool b => cases b <;> cases hr
  | exception => cases hr; rfl
  | _ => cases hr

/-- The arguments of an exception take room, but are never met again. -/
theorem textWithin_exception_succ
    {typeName : String} {args : List Ref}
    (hr : (h.read r).shape = .exception typeName args)
    (room : Nat) (opened : List Ref) :
    h.textWithin (room + 1) opened r =
      typeName ++ (Layout.tuple args).textBy (h.textWithin room opened) := by
  rw [textWithin.eq_def]
  generalize h.read r = v at hr ⊢
  cases v with
  | bool b => cases b <;> cases hr
  | exception => cases hr; rw [Layout.textBy_tuple]
  | _ => cases hr

end Texts

end Heap
end LiveProbe
