import Mathlib.Data.List.GetD
import LiveProbe.Proofs.Expr.Chaining
import LiveProbe.Proofs.Expr.Integers
import LiveProbe.Proofs.Expr.ReadingBack
import LiveProbe.Proofs.Value.Plain

/-!
# Membership and access

What is a member of a value is what can be read of it.

**Scans.**  Membership in a dictionary looks at the keys and access at the entries.  Both
compare the same pairs in the same order and stop at the same one, at a key that is equal or
at a comparison that reaches the limit (`Eval.anyEqual_keys`).

**Rows.**  Lists, tuples and strings have places from zero to their length.  An index is a
place, or a place less the length (`Eval.place_inside`).

**Specification.**  Membership in a dictionary beside access to it (`Eval.KeyRules`),
membership in a row beside its items (`Eval.MemberRules`), and the indices of a row
(`Eval.RowRules`).

**Results.**
* `Eval.keyRules`: the rules of dictionaries, whatever their keys.
* `Eval.memberRules`: the rules of rows whose items can be compared with the value.
* `Eval.rowRules`: the rules of indices, for any kind of row.
* `Eval.membership_agrees_with_access`: all of them, for values under names.
-/

namespace LiveProbe
namespace Eval

/-! ### Specification -/

/-- Whether a dictionary has a key, beside what is read of it under the key. -/
structure KeyRules (mem read : Except EvalError Value) (keyText : String) : Prop where
  mem_iff : mem = .ok (.bool true) ↔ ∃ v, read = .ok v
  notMem_iff : mem = .ok (.bool false) ↔ ∃ text, read = .error (.keyNotFound text)
  limit_iff : mem = .error .recursionLimit ↔ read = .error .recursionLimit
  ends : mem = .ok (.bool true) ∨ mem = .ok (.bool false) ∨ mem = .error .recursionLimit
  missing : ∀ text, read = .error (.keyNotFound text) → text = keyText

/-- Whether a row of so many items has a value, beside which items equal the value. -/
structure MemberRules (mem : Except EvalError Value) (sameAt : Nat → Except EvalError Value)
    (length : Nat) : Prop where
  mem_iff : mem = .ok (.bool true) ↔ ∃ i < length, sameAt i = .ok (.bool true)
  notMem_iff : mem = .ok (.bool false) ↔ ∀ i < length, sameAt i = .ok (.bool false)

/-- What is read of a row of so many items at indices, and how many there are. -/
structure RowRules (b : Bindings) (h : Heap) (row : Expr) (length : Nat)
    (isItem : Nat → Ref × Heap → Prop) : Prop where
  len : Returns ((evaluate b (.call "len" [row])).run h) length
  reads_iff : ∀ k i g, Yields b h k i g →
    ((∃ out, (evaluate b (.index row k)).run h = .ok out) ↔ -length ≤ i ∧ i < length)
  outside : ∀ k i g, Yields b h k i g → ¬(-length ≤ i ∧ i < length) →
    (evaluate b (.index row k)).run h = .error (.indexOutOfRange i length)
  item : ∀ k (i : Nat) g, Yields b h k i g → i < length →
    ∃ front back, isItem i front ∧ isItem i back ∧
      (evaluate b (.index row k)).run h = .ok front ∧
      (evaluate b (.index row (.binary .sub k (.call "len" [row])))).run h = .ok back

/-- Whether the item at a place equals the value under a name. -/
def equalAt (b : Bindings) (h : Heap) (row : Expr) (name : String) (i : Nat) :
    Except EvalError Value :=
  outcome b (.compare (.index row (.int (Int64.ofNat i))) [(.eq, .name name)]) h

/-! ### Scans -/

section Scans

variable {h : Heap} {key needle : Ref}

/-- Membership among the keys asks the same comparisons as the lookup, in the same order. -/
theorem anyEqual_keys
    (h : Heap) (key : Ref) (entries : List (Ref × Ref)) :
    anyEqual h key (entries.map Prod.fst) = (lookup h key entries).map Option.isSome := by
  induction entries with
  | nil => rfl
  | cons e entries ih =>
      rw [List.map_cons, anyEqual, lookup]
      cases h.equal e.1 key with
      | error fault => rfl
      | ok equal =>
          cases equal with
          | true => rfl
          | false => exact ih

/-- A key that cannot be compared reaches the limit. -/
theorem lookup_ends
    (h : Heap) (key : Ref) (entries : List (Ref × Ref)) :
    (∃ found, lookup h key entries = .ok found) ∨
      lookup h key entries = .error .recursionLimit := by
  induction entries with
  | nil => exact .inl ⟨none, rfl⟩
  | cons e entries ih =>
      rw [lookup]
      obtain ⟨equal, hequal⟩ | ⟨hlimit, -⟩ := (h.equal_agrees_with_plain e.1 key).2.2
      · rw [hequal]
        cases equal with
        | true => exact .inl ⟨some e.2, rfl⟩
        | false => exact ih
      · rw [hlimit]
        exact .inr rfl

/-- Where every comparison has an outcome, the scan finds an equal item or tells there is none. -/
theorem anyEqual_of_comparable
    {items : List Ref}
    (hitems : ∀ item ∈ items, ∃ equal, h.equal item needle = .ok equal) :
    ∃ found, anyEqual h needle items = .ok found ∧
      (found = true ↔ ∃ item ∈ items, h.equal item needle = .ok true) := by
  induction items with
  | nil => exact ⟨false, rfl, by simp⟩
  | cons item items ih =>
      rw [List.forall_mem_cons] at hitems
      obtain ⟨equal, hequal⟩ := hitems.1
      rw [anyEqual, hequal]
      cases equal with
      | true => exact ⟨true, rfl, by simp [hequal]⟩
      | false =>
          obtain ⟨found, hfound, hiff⟩ := ih hitems.2
          exact ⟨found, hfound, by simp [hiff, hequal]⟩

end Scans

/-! ### Operators on values under names -/

section Names

variable {b : Bindings} {h g g' : Heap} {s x : String} {container element r q : Ref} {e e' : Expr}

/-- A bound name evaluates to its reference and leaves the heap alone. -/
theorem run_name
    (hs : b.get? s = some r)
    (h : Heap) :
    (evaluate b (.name s)).run h = .ok (r, h) := by
  rw [evaluate, hs]
  rfl

/-- A single comparison evaluates its two operands in order and compares what they give. -/
theorem outcome_compare
    (hleft : (evaluate b e).run h = .ok (r, g))
    (hright : (evaluate b e').run g = .ok (q, g'))
    (op : CompareOp) :
    outcome b (.compare e [(op, e')]) h = (compare g' op r q).map .bool := by
  rw [outcome, evaluate, run_bind_ok hleft, run_evaluateLinks_single hright]
  cases compare g' op r q with
  | error fault => rfl
  | ok answer => exact congrArg Except.ok (Heap.read_alloc_self g' (.bool answer))

/-- An index into a text gives the character there as a text of its own. -/
theorem run_indexInto_str
    {text : String}
    (hread : h.read container = .str text) :
    (indexInto container q).run h =
      (place (h.read q) text.length).map fun n =>
        h.alloc (.str (String.singleton (text.toList.getD n ' '))) := by
  rw [indexInto, run_bind_ok (run_valueOf hread), run_bind_ok (run_valueOf rfl),
    ← String.length_toList]
  dsimp only
  cases place (h.read q) text.toList.length <;> rfl

/-! ### Dictionaries -/

/-- A key that is there is a member, and the access gives its value. -/
theorem keyRules_found
    (v : Value) (text : String) :
    KeyRules (.ok (.bool true)) (.ok v) text := by
  constructor <;> simp

/-- A key that is not there is no member, and the access names it. -/
theorem keyRules_missing
    (text : String) :
    KeyRules (.ok (.bool false)) (.error (.keyNotFound text)) text := by
  constructor <;> simp

/-- A comparison beyond the nesting limit ends both alike. -/
theorem keyRules_limit
    (text : String) :
    KeyRules (.error .recursionLimit) (.error .recursionLimit) text := by
  constructor <;> simp

/-- The rules for a dictionary, from the one lookup behind both forms. -/
theorem keyRules
    {entries : List (Ref × Ref)}
    (hs : b.get? s = some container)
    (hx : b.get? x = some element)
    (hread : h.read container = .dict entries) :
    KeyRules (outcome b (.compare (.name x) [(.mem, .name s)]) h)
      (outcome b (.index (.name s) (.name x)) h) (h.textOf element) := by
  have hmem : outcome b (.compare (.name x) [(.mem, .name s)]) h =
      (lookup h element entries).map fun found => .bool found.isSome := by
    rw [outcome_compare (run_name hx h) (run_name hs h), compare, contains, hread]
    dsimp only
    rw [anyEqual_keys]
    cases lookup h element entries <;> rfl
  rw [hmem, outcome, run_index (run_name hs h) (run_name hx h), run_indexInto_lookup hread]
  obtain ⟨found, hfound⟩ | hlimit := lookup_ends h element entries
  · rw [hfound]
    cases found with
    | none => exact keyRules_missing _
    | some value => exact keyRules_found _ _
  · rw [hlimit]
    exact keyRules_limit _

/-! ### Rows -/

theorem exists_scalar_of_integer?
    {v : Value} {i : Int}
    (hv : v.integer? = some i) :
    ∃ value : Int64, v.scalar? = some (.integer value) ∧ value.toInt = i := by
  cases v with
  | int value => exact ⟨value, rfl, Option.some.inj hv⟩
  | bool value => exact ⟨bit value, rfl, (toInt_bit value).trans (Option.some.inj hv)⟩
  | _ => cases hv

section Places

variable {v : Value} {i : Int} {n length : Nat}

/-- An index counted from either end is a place of the row. -/
theorem place_inside
    (hv : v.integer? = some i)
    (hn : n < length)
    (hi : i = n ∨ i = n - length) :
    place v length = .ok n := by
  obtain ⟨value, hvalue, rfl⟩ := exists_scalar_of_integer? hv
  obtain hfront | hback := hi
  · exact place_front hvalue hfront hn
  · rw [place_back (n := length - 1 - n) hvalue (by omega) (by omega)]
    exact congrArg Except.ok (by omega)

theorem place_beyond
    (hv : v.integer? = some i)
    (hi : ¬(-length ≤ i ∧ i < length)) :
    place v length = .error (.indexOutOfRange i length) := by
  obtain ⟨value, hvalue, rfl⟩ := exists_scalar_of_integer? hv
  exact place_outside hvalue (by omega)

/-- An index in range is a place, or a place less the length. -/
theorem exists_place
    (hi : -length ≤ i ∧ i < length) :
    ∃ n < length, i = (n : Int) ∨ i = (n : Int) - length := by
  by_cases hneg : i < 0
  · exact ⟨(i + length).toNat, by omega, .inr (by omega)⟩
  · exact ⟨i.toNat, by omega, .inl (by omega)⟩

end Places

section Lengths

variable {length : Nat}

/-- The length of a row is an integer of its own. -/
theorem run_len
    (hs : b.get? s = some container)
    (hlength : (h.read container).length? = some length) :
    (evaluate b (.call "len" [.name s])).run h = .ok (h.alloc (.int (Int64.ofNat length))) := by
  have hargs : (evaluateAll b [.name s]).run h = .ok ([container], h) := by
    rw [evaluateAll, run_bind_ok (run_name hs h), evaluateAll]
    rfl
  have hcall : (evaluate b (.call "len" [.name s])).run h = (lengthOf container).run h := by
    rw [evaluate, run_bind_ok hargs]
    rfl
  rw [hcall, lengthOf, run_bind_ok (run_valueOf rfl), hlength]
  rfl

theorem returns_len
    (hs : b.get? s = some container)
    (hlength : (h.read container).length? = some length)
    (hbound : length < 2 ^ 63) :
    Returns ((evaluate b (.call "len" [.name s])).run h) length :=
  ⟨_, _, _, run_len hs hlength, h.read_alloc_self _, Int64.toInt_ofNat_of_lt hbound⟩

/-- An expression that returns an integer yields it in some heap. -/
theorem Returns.exists_yields
    {n : Int}
    (hreturns : Returns ((evaluate b e).run h) n) :
    ∃ g, Yields b h e n g := by
  obtain ⟨r, g, i, hrun, hr, rfl⟩ := hreturns
  refine ⟨g, r, hrun, ?_⟩
  rw [hr]
  rfl

/-- The distance of a place from the end, as a negative index. -/
theorem exists_yields_back
    {k : Expr} {n : Nat}
    (hs : b.get? s = some container)
    (hlength : (h.read container).length? = some length)
    (hbound : length < 2 ^ 63)
    (hk : Yields b h k n g)
    (hn : n < length) :
    ∃ g', Yields b h (.binary .sub k (.call "len" [.name s])) (n - length) g' := by
  obtain ⟨q, hrun, hq⟩ := hk
  have hlength' := (grows_evaluate b k hrun).map_read_eq_some rfl hlength
  obtain ⟨g', hlen⟩ := (returns_len hs hlength' hbound).exists_yields
  have hrules := arithmeticRules_evaluate ⟨q, hrun, hq⟩ hlen
  exact (hrules.sub.exact ⟨by omega, by omega⟩).exists_yields

/-- The rules for any row, from how an index gives a part of it. -/
theorem rowRules
    {isItem : Nat → Ref × Heap → Prop}
    (part : Heap → Nat → Ref × Heap)
    (hs : b.get? s = some container)
    (hlength : (h.read container).length? = some length)
    (hbound : length < 2 ^ 63)
    (hindex : ∀ {g q}, h.Extends g →
        (indexInto container q).run g = (place (g.read q) length).map (part g))
    (hpart : ∀ g n, n < length → isItem n (part g n)) :
    RowRules b h (.name s) length isItem := by
  have hread : ∀ k i g, Yields b h k i g → ∃ v : Value, v.integer? = some i ∧
      (evaluate b (.index (.name s) k)).run h = (place v length).map (part g) := by
    rintro k i g ⟨q, hrun, hq⟩
    refine ⟨g.read q, hq, ?_⟩
    rw [run_index (run_name hs h) hrun, hindex (grows_evaluate b k hrun)]
  have hinside : ∀ k i g n, Yields b h k i g → n < length → (i = n ∨ i = n - length) →
      (evaluate b (.index (.name s) k)).run h = .ok (part g n) := by
    intro k i g n hk hn hi
    obtain ⟨v, hv, hrun⟩ := hread k i g hk
    rw [hrun, place_inside hv hn hi]
    rfl
  have houtside : ∀ k i g, Yields b h k i g → ¬(-length ≤ i ∧ i < length) →
      (evaluate b (.index (.name s) k)).run h = .error (.indexOutOfRange i length) := by
    intro k i g hk hi
    obtain ⟨v, hv, hrun⟩ := hread k i g hk
    rw [hrun, place_beyond hv hi]
    rfl
  refine ⟨returns_len hs hlength hbound, fun k i g hk => ⟨?_, ?_⟩, houtside, ?_⟩
  · rintro ⟨out, hout⟩
    by_contra hi
    rw [houtside k i g hk hi] at hout
    cases hout
  · intro hi
    obtain ⟨n, hn, hin⟩ := exists_place hi
    exact ⟨_, hinside k i g n hk hn hin⟩
  · intro k i g hk hi
    obtain ⟨g', hback⟩ := exists_yields_back hs hlength hbound hk hi
    exact ⟨part g i, part g' i, hpart g i hi, hpart g' i hi, hinside k i g i hk hi (.inl rfl),
      hinside _ _ g' i hback hi (.inr rfl)⟩

end Lengths

theorem rowRules_items
    {items : List Ref}
    (hs : b.get? s = some container)
    (hread : h.read container = .list items ∨ h.read container = .tuple items)
    (hbound : items.length < 2 ^ 63) :
    RowRules b h (.name s) items.length fun n out => items[n]? = some out.1 := by
  refine rowRules (fun g n => (items.getD n 0, g)) hs ?_ hbound ?_ ?_
  · obtain hread | hread := hread <;> rw [hread] <;> rfl
  · intro g q hgrown
    refine run_indexInto_items ?_
    exact hread.imp (hgrown.read_eq_of_ne_none · (by simp))
      (hgrown.read_eq_of_ne_none · (by simp))
  · intro g n hn
    rw [List.getD_eq_getElem _ _ hn, List.getElem?_eq_getElem hn]

theorem rowRules_str
    {text : String}
    (hs : b.get? s = some container)
    (hread : h.read container = .str text)
    (hbound : text.length < 2 ^ 63) :
    RowRules b h (.name s) text.length fun n out =>
      ∃ c, text.toList[n]? = some c ∧ out.2.read out.1 = .str (String.singleton c) := by
  refine rowRules (fun g n => g.alloc (.str (String.singleton (text.toList.getD n ' ')))) hs ?_
    hbound ?_ ?_
  · rw [hread]
    rfl
  · intro g q hgrown
    exact run_indexInto_str (hgrown.read_eq_of_ne_none hread (by simp))
  · intro g n hn
    rw [← String.length_toList] at hn
    refine ⟨text.toList[n], List.getElem?_eq_getElem hn, ?_⟩
    rw [Heap.read_alloc_self, List.getD_eq_getElem _ _ hn]

/-! ### Items -/

/-- An item is compared with the value in a heap that has grown by the index. -/
theorem equalAt_eq
    {items : List Ref} {n : Nat}
    (hclosed : h.IsClosed)
    (hbound : ∀ p ∈ b.pairs, p.2 < h.size)
    (hs : b.get? s = some container)
    (hx : b.get? x = some element)
    (hread : h.read container = .list items ∨ h.read container = .tuple items)
    (hn : n < items.length)
    (hsmall : items.length < 2 ^ 63) :
    equalAt b h (.name s) x n = (h.equal items[n] element).map .bool := by
  have hsame : Fixes h.Same b := fun p hp => ⟨rfl, hbound p hp⟩
  have hlive : container < h.size := (pair_of_get? hsame hs).2
  have hitem : items[n] < h.size := by
    refine hclosed container hlive _ ?_
    obtain hread | hread := hread <;> rw [hread] <;> exact List.getElem_mem hn
  have hk := yields_int b (Int64.ofNat n) h
  rw [Int64.toInt_ofNat_of_lt (Nat.lt_trans hn hsmall)] at hk
  obtain ⟨⟨r, g⟩, -, hfront, -, hrun, -⟩ := (rowRules_items hs hread hsmall).item _ n _ hk hn
  obtain rfl : items[n] = r :=
    Option.some.inj ((List.getElem?_eq_getElem hn).symm.trans hfront)
  have halike := (Heap.Alike.refl hclosed).of_extends (grows_evaluate b _ hrun)
  rw [equalAt, outcome_compare hrun (run_name hx g), compare,
    halike.equal_eq ⟨rfl, hitem⟩ (pair_of_get? hsame hx)]

/-- Membership of a list or tuple is equality with the item at some place. -/
theorem memberRules
    {items : List Ref}
    (hclosed : h.IsClosed)
    (hbound : ∀ p ∈ b.pairs, p.2 < h.size)
    (hs : b.get? s = some container)
    (hx : b.get? x = some element)
    (hread : h.read container = .list items ∨ h.read container = .tuple items)
    (hsmall : items.length < 2 ^ 63)
    (hcomparable : ∀ i < items.length, ∃ v, equalAt b h (.name s) x i = .ok v) :
    MemberRules (outcome b (.compare (.name x) [(.mem, .name s)]) h) (equalAt b h (.name s) x)
      items.length := by
  have hat : ∀ n (hn : n < items.length), ∃ equal, h.equal items[n] element = .ok equal ∧
      equalAt b h (.name s) x n = .ok (.bool equal) := by
    intro n hn
    obtain ⟨v, hv⟩ := hcomparable n hn
    rw [equalAt_eq hclosed hbound hs hx hread hn hsmall] at hv ⊢
    cases hequal : h.equal items[n] element with
    | error fault =>
        rw [hequal] at hv
        cases hv
    | ok equal => exact ⟨equal, rfl, rfl⟩
  have hequal : ∀ item ∈ items, ∃ equal, h.equal item element = .ok equal := by
    intro item hitem
    obtain ⟨n, hn, rfl⟩ := List.getElem_of_mem hitem
    obtain ⟨equal, hequal, -⟩ := hat n hn
    exact ⟨equal, hequal⟩
  obtain ⟨found, hfound, hiff⟩ := anyEqual_of_comparable hequal
  have hmem : outcome b (.compare (.name x) [(.mem, .name s)]) h = .ok (.bool found) := by
    rw [outcome_compare (run_name hx h) (run_name hs h), compare, contains]
    obtain hread | hread := hread
    all_goals
      rw [hread]
      dsimp only
      rw [hfound]
      rfl
  rw [hmem]
  cases found with
  | true =>
      obtain ⟨item, hitem, htrue⟩ := hiff.mp rfl
      obtain ⟨n, hn, rfl⟩ := List.getElem_of_mem hitem
      obtain ⟨equal, hequal, hsame⟩ := hat n hn
      obtain rfl : equal = true := Except.ok.inj (hequal.symm.trans htrue)
      refine ⟨iff_of_true rfl ⟨n, hn, hsame⟩, iff_of_false (by simp) fun hfalse => ?_⟩
      cases hsame.symm.trans (hfalse n hn)
  | false =>
      have hfalse : ∀ n < items.length, equalAt b h (.name s) x n = .ok (.bool false) := by
        intro n hn
        obtain ⟨equal, hequal, hsame⟩ := hat n hn
        cases equal with
        | true => cases hiff.mpr ⟨_, List.getElem_mem hn, hequal⟩
        | false => exact hsame
      refine ⟨iff_of_false (by simp) ?_, iff_of_true rfl hfalse⟩
      rintro ⟨n, hn, htrue⟩
      cases htrue.symm.trans (hfalse n hn)

end Names

/-- A dictionary has the keys under which it can be read, and fails where reading fails.  A
list or tuple has the values that equal one of its items.  Rows have their items from zero to
the length, and the same ones counted from the end; those of a string are its characters.
Memory holds no row whose length would not be an integer of 64 bits. -/
theorem membership_agrees_with_access
    {b : Bindings} {h : Heap} {s x : String} {container element : Ref}
    (hclosed : h.IsClosed)
    (hbound : ∀ p ∈ b.pairs, p.2 < h.size)
    (hs : b.get? s = some container)
    (hx : b.get? x = some element) :
    (∀ entries, h.read container = .dict entries →
      KeyRules (outcome b (.compare (.name x) [(.mem, .name s)]) h)
        (outcome b (.index (.name s) (.name x)) h) (h.textOf element)) ∧
    (∀ items, h.read container = .list items ∨ h.read container = .tuple items →
      items.length < 2 ^ 63 →
      ((∀ i < items.length, ∃ v, equalAt b h (.name s) x i = .ok v) →
        MemberRules (outcome b (.compare (.name x) [(.mem, .name s)]) h)
          (equalAt b h (.name s) x) items.length) ∧
      RowRules b h (.name s) items.length fun n out => items[n]? = some out.1) ∧
    ∀ text, h.read container = .str text → text.length < 2 ^ 63 →
      RowRules b h (.name s) text.length fun n out =>
        ∃ c, text.toList[n]? = some c ∧ out.2.read out.1 = .str (String.singleton c) := by
  refine ⟨fun entries hread => keyRules hs hx hread, fun items hread hsmall => ⟨?_, ?_⟩,
    fun text hread hsmall => rowRules_str hs hread hsmall⟩
  · exact memberRules hclosed hbound hs hx hread hsmall
  · exact rowRules_items hs hread hsmall

/-- Two integers, a list and a dictionary of them, and a text. -/
def shelf : Heap := ⟨#[.int 7, .int 8, .list [0, 1], .dict [(0, 1)], .str "ab"]⟩

/-- A dictionary without the key, a list with the item, and a tuple indexed from the end. -/
theorem membership_agrees_with_access_shelf :
    (outcome ⟨[("d", 3), ("x", 1)]⟩ (.compare (.name "x") [(.mem, .name "d")]) shelf =
        .ok (.bool false) ↔
      ∃ text, outcome ⟨[("d", 3), ("x", 1)]⟩ (.index (.name "d") (.name "x")) shelf =
        .error (.keyNotFound text)) ∧
    outcome ⟨[("l", 2), ("x", 1)]⟩ (.compare (.name "x") [(.mem, .name "l")]) shelf =
      .ok (.bool true) ∧
    (evaluate ⟨[("t", 4), ("x", 1)]⟩ (.index (.name "t") (.int 2))).run shelf =
      .error (.indexOutOfRange 2 2) := by
  have hclosed : shelf.IsClosed := by
    rw [Heap.IsClosed]
    decide
  have hdict := (membership_agrees_with_access (b := ⟨[("d", 3), ("x", 1)]⟩) (s := "d") (x := "x")
    hclosed (by decide) rfl rfl).1 [(0, 1)] rfl
  have hlist := (membership_agrees_with_access (b := ⟨[("l", 2), ("x", 1)]⟩) (s := "l") (x := "x")
    hclosed (by decide) rfl rfl).2.1 [0, 1] (.inl rfl) (by decide)
  have htext := (membership_agrees_with_access (b := ⟨[("t", 4), ("x", 1)]⟩) (s := "t") (x := "x")
    hclosed (by decide) rfl rfl).2.2 "ab" rfl (by decide)
  have hcomparable : ∀ i < 2, ∃ v,
      equalAt ⟨[("l", 2), ("x", 1)]⟩ shelf (.name "l") "x" i = .ok v := by
    intro i hi
    obtain rfl | rfl : i = 0 ∨ i = 1 := by omega
    · exact ⟨_, rfl⟩
    · exact ⟨_, rfl⟩
  refine ⟨hdict.notMem_iff, (hlist.1 hcomparable).mem_iff.mpr ⟨1, by decide, rfl⟩, ?_⟩
  exact htext.outside (.int 2) 2 _ (yields_int _ 2 _) (by decide)

end Eval
end LiveProbe
