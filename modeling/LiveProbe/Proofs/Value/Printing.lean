import LiveProbe.Proofs.Value.Layout
import Mathlib.Data.List.ReduceOption
import Mathlib.Logic.Function.Iterate
import Mathlib.Logic.Relation

/-!
# Printing shared and cyclic values

The text of a value, printed fragment by fragment with a record of the containers that are open.

**Printer.**  A container is opened before its fragments are printed and closed behind them
(`Printing.State.step`).  The arguments of an exception are a tuple made for the purpose; it is
open like any other, but it is no value, so it is never met inside itself.

**Specification.**  The unbounded printer (`Heap.plainText`) keeps no record.  It need not end,
so it is given fuel.

**Invariant.**  Whatever is still to be done, a value adds its text to what is written, leaves
the open containers as they were, and at no time are there more of them than the limit
(`Printing.Writes`).  The induction is on the room that is left, since the value may be
cyclic.

**Results.**
* `writes_value`: printing a value inside open containers ends, with the text of the value.
* `plainText_of_isNested`: what is nested within the limit is printed without a bound.
* `textOf_is_printed`: both for whole values, with what becomes of a container at each time.
-/

namespace LiveProbe

open Printing

namespace Heap

/-! ### Printing without a bound -/

/-- The text of a value with all that is inside.  Without fuel there is none. -/
def plainText (h : Heap) : Nat → Ref → Option String
  | 0, _ => none
  | fuel + 1, r =>
      match (h.read r).shape with
      | .leaf text => some text
      | .container layout => layout.textBy? (h.plainText fuel)
      | .exception typeName args =>
          ((Layout.tuple args).textBy? (h.plainText fuel)).map (typeName ++ ·)

/-- Containers lie inside each other at most `levels` deep, those behind the names of exceptions
included. -/
def IsNested (h : Heap) : Nat → Ref → Prop
  | 0, r => ∃ text, (h.read r).shape = .leaf text
  | levels + 1, r => ∀ part, (h.read r).shape.IsPart part → IsNested h levels part

/-- A value is printed strictly inside another. -/
def Encloses (h : Heap) (x r : Ref) : Prop :=
  Relation.TransGen (fun x r => (h.read x).shape.IsPart r) x r

section Plain

variable {h : Heap} {x r : Ref} {levels : Nat}

theorem IsNested.of_isPart
    (hx : h.IsNested levels x)
    (hr : (h.read x).shape.IsPart r) :
    ∃ fewer, levels = fewer + 1 ∧ h.IsNested fewer r := by
  cases levels with
  | zero =>
      obtain ⟨text, hleaf⟩ := hx
      rw [hleaf] at hr
      exact hr.elim
  | succ fewer => exact ⟨fewer, rfl, hx r hr⟩

/-- What lies strictly inside has fewer levels. -/
theorem IsNested.of_encloses
    (hx : h.IsNested levels x)
    (hr : h.Encloses x r) :
    ∃ fewer < levels, h.IsNested fewer r := by
  induction hr with
  | single hr =>
      obtain ⟨fewer, rfl, hfewer⟩ := hx.of_isPart hr
      exact ⟨fewer, fewer.lt_succ_self, hfewer⟩
  | tail _ hr ih =>
      obtain ⟨some, hlt, hsome⟩ := ih
      obtain ⟨fewer, rfl, hfewer⟩ := hsome.of_isPart hr
      exact ⟨fewer, by omega, hfewer⟩

/-- What is nested to some depth is acyclic. -/
theorem IsNested.not_encloses_self
    (hx : h.IsNested levels x) :
    ¬h.Encloses x x := by
  intro hself
  induction levels using Nat.strongRecOn with
  | ind levels ih =>
      obtain ⟨fewer, hlt, hfewer⟩ := hx.of_encloses hself
      exact ih fewer hlt hfewer

/-- Fragments are written where all values in them are. -/
theorem mapM_textBy?_of_forall
    {print? : Ref → Option String} {print : Ref → String} {fragments : List Fragment}
    (hprint : ∀ part, .value part ∈ fragments → print? part = some (print part)) :
    fragments.mapM (Fragment.textBy? print?) = some (fragments.map (Fragment.textBy print)) := by
  induction fragments with
  | nil => rfl
  | cons fragment fragments ih =>
      have hfragment : fragment.textBy? print? = some (fragment.textBy print) := by
        cases fragment with
        | text s => rfl
        | value part => exact hprint part List.mem_cons_self
      have hrest := ih fun part hpart => hprint part (List.mem_cons_of_mem _ hpart)
      rw [List.mapM_cons, hfragment, hrest]
      rfl

theorem textBy?_of_forall
    {print? : Ref → Option String} {print : Ref → String} {layout : Layout}
    (hprint : ∀ part, .value part ∈ layout.fragments → print? part = some (print part)) :
    layout.textBy? print? = some (layout.textBy print) := by
  rw [Layout.textBy?, mapM_textBy?_of_forall hprint]
  rfl

/-- Inside values that enclose it, a value nested within the room that is left is printed as
without a bound. -/
theorem plainText_of_isNested
    {room : Nat} {opened : List Ref}
    (hr : h.IsNested levels r)
    (hroom : levels ≤ room)
    (hopened : ∀ x ∈ opened, h.Encloses x r) :
    h.plainText (levels + 1) r = some (h.textWithin room opened r) := by
  induction levels generalizing room opened r with
  | zero =>
      obtain ⟨text, hleaf⟩ := hr
      rw [plainText, hleaf, textWithin_leaf hleaf]
  | succ levels ih =>
      obtain ⟨room, rfl⟩ := Nat.exists_eq_add_of_le' (Nat.le_of_add_left_le hroom)
      have hparts (opened' : List Ref) (part : Ref) (hpart : (h.read r).shape.IsPart part)
          (hinside : ∀ x ∈ opened', x = r ∨ x ∈ opened) :
          h.plainText (levels + 1) part = some (h.textWithin room opened' part) := by
        refine ih (hr part hpart) (by omega) fun x hx => ?_
        rcases hinside x hx with rfl | hold
        · exact .single hpart
        · exact (hopened x hold).tail hpart
      cases hshape : (h.read r).shape with
      | leaf text => rw [plainText, hshape, textWithin_leaf hshape]
      | container layout =>
          have hnew : r ∉ opened := fun hmem => hr.not_encloses_self (hopened r hmem)
          rw [plainText, hshape, textWithin_succ hshape, if_neg hnew]
          refine textBy?_of_forall fun part hpart => hparts _ part (hshape ▸ hpart) fun x hx => ?_
          exact List.mem_cons.1 hx
      | exception typeName args =>
          rw [plainText, hshape, textWithin_exception_succ hshape]
          have hargs : (Layout.tuple args).textBy? (h.plainText (levels + 1)) =
              some ((Layout.tuple args).textBy (h.textWithin room opened)) :=
            textBy?_of_forall fun part hpart => hparts _ part (hshape ▸ hpart) fun x hx => .inr hx
          exact congrArg (Option.map (typeName ++ ·)) hargs

/-- A printer that writes more writes the same fragments. -/
theorem mapM_textBy?_mono
    {print more : Ref → Option String} {fragments : List Fragment} {texts : List String}
    (hmore : ∀ part s, print part = some s → more part = some s)
    (htexts : fragments.mapM (Fragment.textBy? print) = some texts) :
    fragments.mapM (Fragment.textBy? more) = some texts := by
  induction fragments generalizing texts with
  | nil => exact htexts
  | cons fragment fragments ih =>
      rw [List.mapM_cons] at htexts ⊢
      obtain ⟨s, hs, hrest⟩ := Option.bind_eq_some_iff.1 htexts
      obtain ⟨rest, hfragments, hcons⟩ := Option.bind_eq_some_iff.1 hrest
      have hfragment : fragment.textBy? more = some s := by
        cases fragment with
        | text s => exact hs
        | value part => exact hmore part s hs
      rw [hfragment, Option.bind_eq_bind, Option.bind_some, ih hfragments]
      exact hcons

theorem textBy?_mono
    {print more : Ref → Option String} {layout : Layout} {text : String}
    (hmore : ∀ part s, print part = some s → more part = some s)
    (htext : layout.textBy? print = some text) :
    layout.textBy? more = some text := by
  obtain ⟨texts, htexts, hjoin⟩ := Option.map_eq_some_iff.1 htext
  exact Option.map_eq_some_iff.2 ⟨texts, mapM_textBy?_mono hmore htexts, hjoin⟩

/-- More fuel changes no text. -/
theorem plainText_mono
    {fuel more : Nat} {text : String}
    (hle : fuel ≤ more)
    (htext : h.plainText fuel r = some text) :
    h.plainText more r = some text := by
  induction fuel generalizing more r text with
  | zero => cases htext
  | succ fuel ih =>
      obtain ⟨more, rfl⟩ := Nat.exists_eq_add_of_le' (Nat.le_of_add_left_le hle)
      have hparts : ∀ part s, h.plainText fuel part = some s → h.plainText more part = some s :=
        fun part s => ih (by omega)
      rw [plainText] at htext ⊢
      cases hshape : (h.read r).shape with
      | leaf s => rwa [hshape] at htext
      | container layout =>
          rw [hshape] at htext
          exact textBy?_mono hparts htext
      | exception typeName args =>
          rw [hshape] at htext
          obtain ⟨s, hs, hname⟩ := Option.map_eq_some_iff.1 htext
          exact Option.map_eq_some_iff.2 ⟨s, textBy?_mono hparts hs, hname⟩

end Plain

end Heap

namespace Printing

/-! ### The printer -/

/-- What is still to be done. -/
inductive Task
  | fragment (p : Fragment)
  /-- The arguments behind the name of an exception. -/
  | arguments (args : List Ref)
  /-- The innermost container is closed. -/
  | close

/-- A printer at work.  Of the open containers, the innermost first, those are told that are
values. -/
structure State where
  tasks : List Task
  opened : List (Option Ref)
  written : String

namespace State

/-- Writes a text in place of the first task. -/
def write (s : State) (rest : List Task) (text : String) : State :=
  ⟨rest, s.opened, s.written ++ text⟩

/-- Opens a container in place of the first task. -/
def enter (s : State) (rest : List Task) (identity : Option Ref) (layout : Layout) : State :=
  ⟨layout.fragments.map .fragment ++ .close :: rest, identity :: s.opened, s.written⟩

/-- The first task is done, or replaced by those that it consists of. -/
def step (h : Heap) (s : State) : State :=
  match s.tasks with
  | [] => s
  | .close :: rest => ⟨rest, s.opened.tail, s.written⟩
  | .arguments args :: rest =>
      if Limits.valueNesting ≤ s.opened.length then s.write rest Heap.ellipsis
      else s.enter rest none (.tuple args)
  | .fragment (.text text) :: rest => s.write rest text
  | .fragment (.value r) :: rest =>
      match (h.read r).shape with
      | .leaf text => s.write rest text
      | .exception typeName args => s.write (.arguments args :: rest) typeName
      | .container layout =>
          if Limits.valueNesting ≤ s.opened.length then s.write rest Heap.ellipsis
          else if some r ∈ s.opened then s.write rest layout.elided
          else s.enter rest (some r) layout

/-- No more containers are open than there may be. -/
def IsBounded (s : State) : Prop := s.opened.length ≤ Limits.valueNesting

section Steps

variable {h : Heap} {s : State} {rest : List Task} {r : Ref}

theorem step_leaf
    {text : String}
    (hs : s.tasks = .fragment (.value r) :: rest)
    (hr : (h.read r).shape = .leaf text) :
    s.step h = s.write rest text := by
  simp only [step, hs, hr]

/-- Of an exception the type is written, and its arguments are next. -/
theorem step_exception
    {typeName : String} {args : List Ref}
    (hs : s.tasks = .fragment (.value r) :: rest)
    (hr : (h.read r).shape = .exception typeName args) :
    s.step h = s.write (.arguments args :: rest) typeName := by
  simp only [step, hs, hr]

/-- A container is elided beyond the limit or where it is open, and entered otherwise. -/
theorem step_container
    {layout : Layout}
    (hs : s.tasks = .fragment (.value r) :: rest)
    (hr : (h.read r).shape = .container layout) :
    s.step h =
      if Limits.valueNesting ≤ s.opened.length then s.write rest Heap.ellipsis
      else if some r ∈ s.opened then s.write rest layout.elided
      else s.enter rest (some r) layout := by
  simp only [step, hs, hr]

theorem step_arguments
    {args : List Ref}
    (hs : s.tasks = .arguments args :: rest) :
    s.step h =
      if Limits.valueNesting ≤ s.opened.length then s.write rest Heap.ellipsis
      else s.enter rest none (.tuple args) := by
  simp only [step, hs]

end Steps

end State

variable {h : Heap}

/-- One state leads to another, and on the way no more containers are open than there may be. -/
def Leads (h : Heap) (s t : State) : Prop :=
  ∃ steps, (State.step h)^[steps] s = t ∧ ∀ n ≤ steps, ((State.step h)^[n] s).IsBounded

theorem Leads.refl
    {s : State}
    (hs : s.IsBounded) :
    Leads h s s := by
  refine ⟨0, rfl, fun n hn => ?_⟩
  rw [Nat.le_zero.1 hn]
  exact hs

theorem Leads.trans
    {s t u : State}
    (hst : Leads h s t)
    (htu : Leads h t u) :
    Leads h s u := by
  obtain ⟨m, rfl, hm⟩ := hst
  obtain ⟨n, rfl, hn⟩ := htu
  refine ⟨n + m, Function.iterate_add_apply _ _ _ _, fun k hk => ?_⟩
  by_cases hfirst : k ≤ m
  · exact hm k hfirst
  · obtain ⟨later, rfl⟩ := Nat.exists_eq_add_of_le' (Nat.le_of_not_le hfirst)
    rw [Function.iterate_add_apply]
    exact hn later (by omega)

theorem Leads.of_step
    {s t : State}
    (hs : s.IsBounded)
    (hstep : s.step h = t)
    (ht : t.IsBounded) :
    Leads h s t := by
  refine ⟨1, hstep, fun n hn => ?_⟩
  match n with
  | 0 => exact hs
  | 1 =>
      rw [Function.iterate_one, hstep]
      exact ht

/-- Inside the containers `opened` the tasks write a text and leave all else as it was. -/
def Writes (h : Heap) (opened : List (Option Ref)) (tasks : List Task) (text : String) : Prop :=
  ∀ rest written, Leads h ⟨tasks ++ rest, opened, written⟩ ⟨rest, opened, written ++ text⟩

section Writing

variable {opened : List (Option Ref)} {print : Ref → String} {r : Ref} {args : List Ref}

/-- A task that is done in a step writes its text. -/
theorem writes_of_step
    {task : Task} {text : String}
    (hbound : opened.length ≤ Limits.valueNesting)
    (hstep : ∀ rest written,
        State.step h ⟨task :: rest, opened, written⟩ = ⟨rest, opened, written ++ text⟩) :
    Writes h opened [task] text :=
  fun rest written => .of_step hbound (hstep rest written) hbound

/-- Fragments are written one after the other, with no container left open. -/
theorem writes_fragments
    {fragments : List Fragment}
    (hbound : opened.length ≤ Limits.valueNesting)
    (hprint : ∀ part, Writes h opened [.fragment (.value part)] (print part)) :
    Writes h opened (fragments.map .fragment)
      (String.join (fragments.map (Fragment.textBy print))) := by
  induction fragments with
  | nil =>
      intro rest written
      simpa using Leads.refl (h := h) (s := ⟨rest, opened, written⟩) hbound
  | cons fragment fragments ih =>
      have hfragment : Writes h opened [.fragment fragment] (fragment.textBy print) := by
        cases fragment with
        | text s => exact writes_of_step hbound fun _ _ => rfl
        | value part => exact hprint part
      intro rest written
      rw [List.map_cons, List.map_cons, String.join_cons, ← String.append_assoc]
      exact (hfragment _ written).trans (ih rest _)

/-- A container that is opened is printed and closed again. -/
theorem writes_of_enter
    {task : Task} {layout : Layout}
    (identity : Option Ref)
    (hroom : opened.length < Limits.valueNesting)
    (hstep : ∀ rest written, State.step h ⟨task :: rest, opened, written⟩ =
        State.enter ⟨task :: rest, opened, written⟩ rest identity layout)
    (hprint : ∀ part, Writes h (identity :: opened) [.fragment (.value part)] (print part)) :
    Writes h opened [task] (layout.textBy print) := by
  have hbound : opened.length ≤ Limits.valueNesting := Nat.le_of_lt hroom
  have hinside : (identity :: opened).length ≤ Limits.valueNesting := hroom
  intro rest written
  refine Leads.trans (.of_step hbound (hstep rest written) hinside) ?_
  refine (writes_fragments hinside hprint (.close :: rest) written).trans ?_
  exact .of_step hinside rfl hbound

theorem writes_leaf
    {text : String}
    (hbound : opened.length ≤ Limits.valueNesting)
    (hr : (h.read r).shape = .leaf text) :
    Writes h opened [.fragment (.value r)] text :=
  writes_of_step hbound fun _ _ => State.step_leaf rfl hr

/-- An exception writes its type and then its arguments. -/
theorem writes_exception
    {typeName text : String}
    (hbound : opened.length ≤ Limits.valueNesting)
    (hr : (h.read r).shape = .exception typeName args)
    (hargs : Writes h opened [.arguments args] text) :
    Writes h opened [.fragment (.value r)] (typeName ++ text) := by
  intro rest written
  rw [← String.append_assoc]
  exact Leads.trans (.of_step hbound (State.step_exception rfl hr) hbound) (hargs rest _)

/-- Inside open containers a value is printed as the room that is left allows. -/
theorem writes_value
    {room : Nat}
    (hroom : opened.length + room = Limits.valueNesting)
    (r : Ref) :
    Writes h opened [.fragment (.value r)] (h.textWithin room opened.reduceOption r) := by
  have hbound : opened.length ≤ Limits.valueNesting := by omega
  induction room generalizing opened r with
  | zero =>
      have hfull : Limits.valueNesting ≤ opened.length := by omega
      cases hshape : (h.read r).shape with
      | leaf text =>
          rw [Heap.textWithin_leaf hshape]
          exact writes_leaf hbound hshape
      | container layout =>
          rw [Heap.textWithin_zero hshape]
          refine writes_of_step hbound fun rest written => ?_
          rw [State.step_container rfl hshape, if_pos hfull]
          rfl
      | exception typeName args =>
          rw [Heap.textWithin_exception_zero hshape]
          refine writes_exception hbound hshape (writes_of_step hbound fun rest written => ?_)
          rw [State.step_arguments rfl, if_pos hfull]
          rfl
  | succ room ih =>
      have hlt : opened.length < Limits.valueNesting := by omega
      have hparts (identity : Option Ref) (part : Ref) :
          Writes h (identity :: opened) [.fragment (.value part)]
            (h.textWithin room (identity :: opened).reduceOption part) := by
        refine ih ?_ part ?_
        · rw [List.length_cons]
          omega
        · exact hlt
      cases hshape : (h.read r).shape with
      | leaf text =>
          rw [Heap.textWithin_leaf hshape]
          exact writes_leaf hbound hshape
      | container layout =>
          rw [Heap.textWithin_succ hshape]
          by_cases hopen : some r ∈ opened
          · rw [if_pos (List.reduceOption_mem_iff.2 hopen)]
            refine writes_of_step hbound fun rest written => ?_
            rw [State.step_container rfl hshape, if_neg (Nat.not_le_of_lt hlt), if_pos hopen]
            rfl
          · rw [if_neg fun hmem => hopen (List.reduceOption_mem_iff.1 hmem)]
            refine writes_of_enter (some r) hlt (fun rest written => ?_) ?_
            · rw [State.step_container rfl hshape, if_neg (Nat.not_le_of_lt hlt), if_neg hopen]
            · rw [← List.reduceOption_cons_of_some]
              exact hparts (some r)
      | exception typeName args =>
          rw [Heap.textWithin_exception_succ hshape]
          refine writes_exception hbound hshape ?_
          refine writes_of_enter none hlt (fun rest written => ?_) ?_
          · rw [State.step_arguments rfl, if_neg (Nat.not_le_of_lt hlt)]
          · rw [← List.reduceOption_cons_of_none]
            exact hparts none

end Writing

/-! ### Whole values -/

/-- The printer before a value. -/
def begin (r : Ref) : State := ⟨[.fragment (.value r)], [], ""⟩

/-- The printer of a value after steps. -/
def after (h : Heap) (r : Ref) (steps : Nat) : State := (State.step h)^[steps] (begin r)

theorem after_add
    (h : Heap) (r : Ref) (m n : Nat) :
    after h r (m + n) = (State.step h)^[n] (after h r m) := by
  rw [after, after, Nat.add_comm, Function.iterate_add_apply]

theorem after_succ
    (h : Heap) (r : Ref) (n : Nat) :
    after h r (n + 1) = (after h r n).step h := after_add h r n 1

/-- The machine stops with the text of the value, and at no time has it too many containers open. -/
theorem exists_after_eq
    (h : Heap) (r : Ref) :
    ∃ steps, after h r steps = ⟨[], [], h.textOf r⟩ ∧ ∀ n ≤ steps, (after h r n).IsBounded := by
  have hwrites : Writes h [] [.fragment (.value r)] (h.textOf r) := writes_value (Nat.zero_add _) r
  have hend := hwrites [] ""
  rwa [String.empty_append] at hend

theorem isBounded_after
    (h : Heap) (r : Ref) (n : Nat) :
    (after h r n).IsBounded := by
  obtain ⟨steps, hend, hbounded⟩ := exists_after_eq h r
  by_cases hle : n ≤ steps
  · exact hbounded n hle
  · -- the printer has come to its end
    obtain ⟨more, rfl⟩ := Nat.exists_eq_add_of_lt (Nat.lt_of_not_le hle)
    have hstay : (⟨[], [], h.textOf r⟩ : State).step h = ⟨[], [], h.textOf r⟩ := rfl
    rw [Nat.add_assoc, after_add, hend, Function.iterate_fixed hstay]
    exact Nat.zero_le _

theorem State.write_eq_write_iff
    {s : State} {rest : List Task} {text text' : String} :
    s.write rest text = s.write rest text' ↔ text = text' := by
  simp only [State.write, State.mk.injEq, true_and, String.append_right_inj]

/-- Writing opens nothing, so it is not entering. -/
theorem State.write_ne_enter
    (s : State) (rest : List Task) (text : String) (identity : Option Ref) (layout : Layout) :
    s.write rest text ≠ s.enter rest identity layout := fun heq =>
  List.cons_ne_self identity s.opened (congrArg State.opened heq).symm

theorem State.enter_ne_write
    (s : State) (rest : List Task) (text : String) (identity : Option Ref) (layout : Layout) :
    s.enter rest identity layout ≠ s.write rest text :=
  (s.write_ne_enter rest text identity layout).symm

/-- What becomes of a container that comes next. -/
theorem State.step_container_iff
    {s : State} {rest : List Task} {r : Ref} {layout : Layout}
    (hbound : s.IsBounded)
    (hs : s.tasks = .fragment (.value r) :: rest)
    (hr : (h.read r).shape = .container layout) :
    (s.step h = s.write rest Heap.ellipsis ↔ s.opened.length = Limits.valueNesting) ∧
      (s.step h = s.write rest layout.elided ↔
        s.opened.length < Limits.valueNesting ∧ some r ∈ s.opened) ∧
      (s.step h = s.enter rest (some r) layout ↔
        s.opened.length < Limits.valueNesting ∧ some r ∉ s.opened) := by
  have helided := Value.elided_ne_ellipsis hr
  rw [step_container hs hr]
  rcases Nat.eq_or_lt_of_le hbound with hfull | hlt
  · rw [if_pos (Nat.le_of_eq hfull.symm)]
    simp [hfull, write_eq_write_iff, helided.symm, write_ne_enter]
  · have hne : s.opened.length ≠ Limits.valueNesting := Nat.ne_of_lt hlt
    rw [if_neg (Nat.not_le_of_lt hlt)]
    by_cases hopen : some r ∈ s.opened
    · rw [if_pos hopen]
      simp [hlt, hne, hopen, write_eq_write_iff, helided, write_ne_enter]
    · rw [if_neg hopen]
      simp [hlt, hne, hopen, enter_ne_write]

/-- What becomes of arguments that come next. -/
theorem State.step_arguments_iff
    {s : State} {rest : List Task} {args : List Ref}
    (hbound : s.IsBounded)
    (hs : s.tasks = .arguments args :: rest) :
    (s.step h = s.write rest Heap.ellipsis ↔ s.opened.length = Limits.valueNesting) ∧
      (s.step h = s.enter rest none (.tuple args) ↔ s.opened.length < Limits.valueNesting) := by
  rw [step_arguments hs]
  rcases Nat.eq_or_lt_of_le hbound with hfull | hlt
  · rw [if_pos (Nat.le_of_eq hfull.symm)]
    simp [hfull, write_ne_enter]
  · have hne : s.opened.length ≠ Limits.valueNesting := Nat.ne_of_lt hlt
    rw [if_neg (Nat.not_le_of_lt hlt)]
    simp [hlt, hne, enter_ne_write]

/-- A container that comes next has been printed when what follows it comes next. -/
theorem exists_later_eq
    {n : Nat} {c : Ref} {rest : List Task}
    (htasks : (after h r n).tasks = .fragment (.value c) :: rest) :
    ∃ later, after h r (n + later) = (after h r n).write rest
      (h.textWithin (Limits.valueNesting - (after h r n).opened.length)
        (after h r n).opened.reduceOption c) := by
  have hbound : (after h r n).opened.length ≤ Limits.valueNesting := isBounded_after h r n
  have hnow : after h r n = ⟨[.fragment (.value c)] ++ rest, (after h r n).opened,
      (after h r n).written⟩ := by
    rw [List.singleton_append, ← htasks]
  obtain ⟨later, hlater, -⟩ := writes_value (h := h) (Nat.add_sub_of_le hbound) c rest
    (after h r n).written
  refine ⟨later, ?_⟩
  rw [after_add]
  nth_rewrite 1 [hnow]
  exact hlater

/-- The unbounded printer finds the text of what is nested within the limit, and no other. -/
theorem plainText_eq_some_iff
    {r : Ref} {text : String}
    (hr : h.IsNested Limits.valueNesting r) :
    (∃ fuel, h.plainText fuel r = some text) ↔ text = h.textOf r := by
  have hplain : h.plainText (Limits.valueNesting + 1) r = some (h.textOf r) :=
    Heap.plainText_of_isNested hr (Nat.le_refl _) (by simp)
  constructor
  · rintro ⟨fuel, hfuel⟩
    have hmore := Heap.plainText_mono (Nat.le_max_left fuel (Limits.valueNesting + 1)) hfuel
    rw [Heap.plainText_mono (Nat.le_max_right _ _) hplain] at hmore
    exact (Option.some.inj hmore).symm
  · rintro rfl
    exact ⟨_, hplain⟩

/-- The printer ends with the text of the value, whatever the value refers to, and closes what it
opened.  At no time are more containers open than there may be.  A container that comes next
is not looked into if as many are open; else it is elided if it is open itself, and opened if not,
and it has been printed when what follows it comes next.  For arguments the first alone is asked.
What is nested within the limit has the text that the unbounded printer finds. -/
theorem textOf_is_printed
    (h : Heap) (r : Ref) :
    (∃ steps, after h r steps = ⟨[], [], h.textOf r⟩) ∧
      (∀ n, (after h r n).opened.length ≤ Limits.valueNesting) ∧
      (∀ n c layout rest,
        let now := after h r n
        let next := after h r (n + 1)
        now.tasks = .fragment (.value c) :: rest → (h.read c).shape = .container layout →
          (next = now.write rest Heap.ellipsis ↔ now.opened.length = Limits.valueNesting) ∧
          (next = now.write rest layout.elided ↔
            now.opened.length < Limits.valueNesting ∧ some c ∈ now.opened) ∧
          (next = now.enter rest (some c) layout ↔
            now.opened.length < Limits.valueNesting ∧ some c ∉ now.opened) ∧
          ∃ later, after h r (n + later) = now.write rest
            (h.textWithin (Limits.valueNesting - now.opened.length) now.opened.reduceOption c)) ∧
      (∀ n args rest,
        let now := after h r n
        let next := after h r (n + 1)
        now.tasks = .arguments args :: rest →
          (next = now.write rest Heap.ellipsis ↔ now.opened.length = Limits.valueNesting) ∧
          (next = now.enter rest none (.tuple args) ↔
            now.opened.length < Limits.valueNesting)) ∧
      (h.IsNested Limits.valueNesting r →
        ∀ text, (∃ fuel, h.plainText fuel r = some text) ↔ text = h.textOf r) := by
  obtain ⟨steps, hend, -⟩ := exists_after_eq h r
  refine ⟨⟨steps, hend⟩, isBounded_after h r, ?_, ?_, fun hr text => plainText_eq_some_iff hr⟩
  · intro n c layout rest now next htasks hshape
    have hnext : next = now.step h := after_succ h r n
    obtain ⟨hfull, helided, hopened⟩ :=
      State.step_container_iff (isBounded_after h r n) htasks hshape
    rw [hnext]
    exact ⟨hfull, helided, hopened, exists_later_eq htasks⟩
  · intro n args rest now next htasks
    have hnext : next = now.step h := after_succ h r n
    rw [hnext]
    exact State.step_arguments_iff (isBounded_after h r n) htasks

/-- A list that holds itself. -/
example : (⟨#[.list [1, 0], .int 1]⟩ : Heap).textOf 0 = "[1, [...]]" := by decide +kernel

end Printing
end LiveProbe
