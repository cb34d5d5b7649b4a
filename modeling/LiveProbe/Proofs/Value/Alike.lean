import LiveProbe.Proofs.Lists
import LiveProbe.Value.Text

/-!
# Values alike up to identities

Two heaps may hold the same values under different identities, as where one of them
holds further cells in between.

**Specification.**  A relation pairs the identities of two heaps (`Heap.Alike`): one to
one, live ones only, and paired cells hold values of one shape with paired parts
(`Value.Alike`).

**Results.**
* `Heap.Alike.alloc`: alike values in fresh cells keep heaps alike.
* `Heap.Alike.of_extends`: so do further cells on one side.
* `Heap.Alike.refl`: a heap without dangling references is alike to itself.
* `Heap.Alike.display_eq`: the text of a value does not depend on its identity.
-/

namespace LiveProbe

variable {R S : Ref → Ref → Prop}

namespace Value

/-- Keys and values are paired. -/
def EntryAlike (R : Ref → Ref → Prop) (e e' : Ref × Ref) : Prop := R e.1 e'.1 ∧ R e.2 e'.2

/-- Fields of one name whose values are paired. -/
def FieldAlike (R : Ref → Ref → Prop) (f f' : String × Ref) : Prop := f.1 = f'.1 ∧ R f.2 f'.2

/-- Values of one shape whose parts are paired. -/
inductive Alike (R : Ref → Ref → Prop) : Value → Value → Prop
  | none : Alike R .none .none
  | bool (value : Bool) : Alike R (.bool value) (.bool value)
  | int (value : Int64) : Alike R (.int value) (.int value)
  | float (value : Float) : Alike R (.float value) (.float value)
  | str (value : String) : Alike R (.str value) (.str value)
  | bytes (value : List UInt8) : Alike R (.bytes value) (.bytes value)
  | list {items items' : List Ref} :
      List.Forall₂ R items items' → Alike R (.list items) (.list items')
  | tuple {items items' : List Ref} :
      List.Forall₂ R items items' → Alike R (.tuple items) (.tuple items')
  | set {items items' : List Ref} :
      List.Forall₂ R items items' → Alike R (.set items) (.set items')
  | dict {entries entries' : List (Ref × Ref)} :
      List.Forall₂ (EntryAlike R) entries entries' → Alike R (.dict entries) (.dict entries')
  | object (typeName : String) {fields fields' : List (String × Ref)} (text : Option String) :
      List.Forall₂ (FieldAlike R) fields fields' →
      Alike R (.object typeName fields text) (.object typeName fields' text)
  | exception (typeName : String) {args args' : List Ref} :
      List.Forall₂ R args args' → Alike R (.exception typeName args) (.exception typeName args')
  | iterator (typeName : String) : Alike R (.iterator typeName) (.iterator typeName)
  | callable (name : String) : Alike R (.callable name) (.callable name)
  | foreign (typeName text : String) : Alike R (.foreign typeName text) (.foreign typeName text)

/-- The identities that a value refers to. -/
def parts : Value → List Ref
  | .list items | .tuple items | .set items => items
  | .dict entries => entries.flatMap fun e => [e.1, e.2]
  | .object _ fields _ => fields.map Prod.snd
  | .exception _ args => args
  | _ => []

namespace Alike

/-- Values alike over some pairs are alike over more. -/
theorem mono
    {v w : Value}
    (h : Alike R v w)
    (hRS : ∀ x y, R x y → S x y) :
    Alike S v w := by
  cases h with
  | none | bool | int | float | str | bytes | iterator | callable | foreign =>
      constructor
  | list h | tuple h | set h | exception _ h =>
      constructor
      exact h.imp hRS
  | dict h =>
      exact .dict (h.imp fun _ _ he => ⟨hRS _ _ he.1, hRS _ _ he.2⟩)
  | object _ _ h =>
      exact .object _ _ (h.imp fun _ _ hf => ⟨hf.1, hRS _ _ hf.2⟩)

/-- A value is like itself where its parts are paired with themselves. -/
theorem refl
    {v : Value}
    (h : ∀ r ∈ v.parts, R r r) :
    Alike R v v := by
  cases v with
  | none | bool | int | float | str | bytes | iterator | callable | foreign =>
      constructor
  | list items | tuple items | set items | exception _ items =>
      constructor
      exact List.forall₂_same.2 h
  | dict entries =>
      refine .dict (List.forall₂_same.2 fun e he => ⟨h _ ?_, h _ ?_⟩) <;>
        exact List.mem_flatMap.2 ⟨e, he, by simp⟩
  | object typeName fields text =>
      exact .object _ _ (List.forall₂_same.2 fun f hf => ⟨rfl, h _ (List.mem_map_of_mem hf)⟩)

variable {v w : Value}

/-- Likeness goes both ways over the pairs turned round. -/
theorem symm
    (h : Alike R v w) :
    Alike (fun y x => R x y) w v := by
  cases h with
  | none | bool | int | float | str | bytes | iterator | callable | foreign =>
      constructor
  | list h | tuple h | set h | exception _ h =>
      constructor
      exact h.flip
  | dict h =>
      exact .dict (h.flip.imp fun _ _ he => he)
  | object _ _ h =>
      exact .object _ _ (h.flip.imp fun _ _ hf => ⟨hf.1.symm, hf.2⟩)

theorem typeName_eq
    (h : Alike R v w) :
    v.typeName = w.typeName := by
  cases h <;> rfl

theorem kind_eq
    (h : Alike R v w) :
    v.kind = w.kind := by
  cases h <;> rfl

theorem length?_eq
    (h : Alike R v w) :
    v.length? = w.length? := by
  cases h with
  | list h | tuple h | set h => exact congrArg some h.length_eq
  | dict h => exact congrArg some h.length_eq
  | _ => rfl

theorem isTruthy_eq
    (h : Alike R v w) :
    v.isTruthy = w.isTruthy := by
  have hlength := h.length?_eq
  cases h with
  | list | tuple | set | dict => simp only [isTruthy, hlength]
  | _ => rfl

end Alike
end Value

namespace Heap

/-! ### Heaps that grow -/

/-- The cells of a heap stand unchanged in another. -/
structure Extends (h h' : Heap) : Prop where
  size_le : h.size ≤ h'.size
  read_eq : ∀ r < h.size, h'.read r = h.read r

theorem Extends.refl
    (h : Heap) :
    h.Extends h :=
  ⟨Nat.le_refl _, fun _ _ => rfl⟩

theorem Extends.trans
    {h h' h'' : Heap}
    (hh : h.Extends h')
    (hh' : h'.Extends h'') :
    h.Extends h'' where
  size_le := Nat.le_trans hh.size_le hh'.size_le
  read_eq := fun r hr => by
    rw [hh'.read_eq r (Nat.lt_of_lt_of_le hr hh.size_le), hh.read_eq r hr]

theorem extends_alloc
    (h : Heap) (v : Value) :
    h.Extends (h.alloc v).2 where
  size_le := by simp
  read_eq := fun _ hr => h.read_alloc_of_lt v hr

/-! ### Heaps alike -/

/-- Identities are paired one to one, and paired cells hold alike values. -/
structure Alike (R : Ref → Ref → Prop) (h g : Heap) : Prop where
  live : ∀ x y, R x y → x < h.size ∧ y < g.size
  eq_iff : ∀ {x y x' y'}, R x y → R x' y' → (x = x' ↔ y = y')
  read : ∀ {x y}, R x y → (h.read x).Alike R (g.read y)

/-- One more pair. -/
def Paired (R : Ref → Ref → Prop) (a b : Ref) (x y : Ref) : Prop := R x y ∨ x = a ∧ y = b

/-- No live cell refers to one that does not exist. -/
def IsClosed (h : Heap) : Prop := ∀ r < h.size, ∀ part ∈ (h.read r).parts, part < h.size

/-- The pairs of the identities of a heap with themselves. -/
def Same (h : Heap) (x y : Ref) : Prop := x = y ∧ x < h.size

namespace Alike

variable {h g h' g' : Heap}

/-- A closed heap is like itself over its own references. -/
theorem refl
    (hclosed : h.IsClosed) :
    Alike h.Same h h where
  live := by
    rintro x _ ⟨rfl, hx⟩
    exact ⟨hx, hx⟩
  eq_iff := by
    rintro x _ x' _ ⟨rfl, _⟩ ⟨rfl, _⟩
    exact Iff.rfl
  read := by
    rintro x _ ⟨rfl, hx⟩
    exact .refl fun part hpart => ⟨rfl, hclosed x hx part hpart⟩

theorem symm
    (ha : Alike R h g) :
    Alike (fun y x => R x y) g h where
  live y x hxy := (ha.live x y hxy).symm
  eq_iff hxy hxy' := (ha.eq_iff hxy hxy').symm
  read hxy := (ha.read hxy).symm

/-- Further cells on one side are in no pair. -/
theorem of_extends
    (ha : Alike R h g)
    (hg : g.Extends g') :
    Alike R h g' where
  live x y hxy :=
    ⟨(ha.live x y hxy).1, Nat.lt_of_lt_of_le (ha.live x y hxy).2 hg.size_le⟩
  eq_iff := ha.eq_iff
  read {x y} hxy := by
    rw [hg.read_eq y (ha.live x y hxy).2]
    exact ha.read hxy

theorem of_extends_left
    (ha : Alike R h g)
    (hh : h.Extends h') :
    Alike R h' g :=
  (ha.symm.of_extends hh).symm

theorem alloc
    {v w : Value}
    (ha : Alike R h g)
    (hvw : v.Alike R w) :
    Alike (Paired R h.size g.size) (h.alloc v).2 (g.alloc w).2 where
  live := by
    rintro x y (hxy | ⟨rfl, rfl⟩)
    · rw [size_alloc, size_alloc]
      exact ⟨Nat.lt_succ_of_lt (ha.live x y hxy).1, Nat.lt_succ_of_lt (ha.live x y hxy).2⟩
    · simp
  eq_iff := by
    rintro x y x' y' (hxy | ⟨rfl, rfl⟩) (hxy' | ⟨rfl, rfl⟩)
    · exact ha.eq_iff hxy hxy'
    · have hlive := ha.live x y hxy
      exact iff_of_false (Nat.ne_of_lt hlive.1) (Nat.ne_of_lt hlive.2)
    · have hlive := ha.live x' y' hxy'
      exact iff_of_false (Nat.ne_of_gt hlive.1) (Nat.ne_of_gt hlive.2)
    · exact iff_of_true rfl rfl
  read := by
    rintro x y (hxy | ⟨rfl, rfl⟩)
    · rw [read_alloc_of_lt h v (ha.live x y hxy).1, read_alloc_of_lt g w (ha.live x y hxy).2]
      exact (ha.read hxy).mono fun _ _ => Or.inl
    · have hv : (h.alloc v).2.read h.size = v := h.read_alloc_self v
      have hw : (g.alloc w).2.read g.size = w := g.read_alloc_self w
      rw [hv, hw]
      exact hvw.mono fun _ _ => Or.inl

/-- Paired references are members of paired lists alike, as no reference has two partners. -/
theorem mem_iff
    {x y : Ref} {xs ys : List Ref}
    (ha : Alike R h g)
    (hxy : R x y)
    (hxs : List.Forall₂ R xs ys) :
    x ∈ xs ↔ y ∈ ys := by
  induction hxs with
  | nil =>
      simp
  | cons hab _ ih =>
      rw [List.mem_cons, List.mem_cons, ha.eq_iff hxy hab, ih]

/-! ### Texts -/

/-- The printer writes paired references alike, under opened containers that are paired. -/
theorem textWithin_eq
    (ha : Alike R h g)
    (room : Nat)
    {opened opened' : List Ref} {x y : Ref}
    (hopened : List.Forall₂ R opened opened')
    (hxy : R x y) :
    h.textWithin room opened x = g.textWithin room opened' y := by
  induction room generalizing opened opened' x y with
  | zero =>
      have hread := ha.read hxy
      unfold textWithin
      generalize h.read x = v at hread ⊢
      generalize g.read y = w at hread ⊢
      cases hread <;> rfl
  | succ room ih =>
      have hread := ha.read hxy
      have hmem := ha.mem_iff hxy hopened
      have hinner : ∀ a b, R a b →
          h.textWithin room (x :: opened) a = g.textWithin room (y :: opened') b :=
        fun a b hab => ih (.cons hxy hopened) hab
      unfold textWithin
      generalize h.read x = v at hread ⊢
      generalize g.read y = w at hread ⊢
      cases hread with
      | none | int | float | str | bytes | object | iterator | callable | foreign =>
          rfl
      | bool b =>
          cases b <;> rfl
      | list hitems | tuple hitems | set hitems =>
          simp only [hmem, hitems.map_eq hinner]
      | dict hentries =>
          have htext : ∀ e e', Value.EntryAlike R e e' →
              h.textWithin room (x :: opened) e.1 ++ ": " ++ h.textWithin room (x :: opened) e.2 =
                g.textWithin room (y :: opened') e'.1 ++ ": " ++
                  g.textWithin room (y :: opened') e'.2 :=
            fun e e' he => by rw [hinner _ _ he.1, hinner _ _ he.2]
          simp only [hmem, hentries.map_eq htext]
      | exception _ hargs =>
          simp only [hargs.map_eq fun a b hab => ih hopened hab]

theorem textOf_eq
    {x y : Ref}
    (ha : Alike R h g)
    (hxy : R x y) :
    h.textOf x = g.textOf y :=
  ha.textWithin_eq _ .nil hxy

theorem display_eq
    {x y : Ref}
    (ha : Alike R h g)
    (hxy : R x y) :
    h.display x = g.display y := by
  have hread := ha.read hxy
  have htext := ha.textOf_eq hxy
  unfold display
  generalize h.read x = v at hread ⊢
  generalize g.read y = w at hread ⊢
  cases hread with
  | str => rfl
  | _ => exact htext

end Alike
end Heap
end LiveProbe
