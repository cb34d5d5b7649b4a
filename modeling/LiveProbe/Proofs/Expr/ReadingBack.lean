import LiveProbe.Proofs.Expr.Growing
import LiveProbe.Proofs.Value.Mutating

/-!
# Reading back what was written

What expressions read of objects, lists and dictionaries that the observed program has changed.

**Specification.**  A field has the value it was last set to (`FieldRules`), and an item that
was pushed stands behind the items before it (`ItemRules`).  Of the entries whose key equals
the one asked for, the first is read (`EntryRules`).

**Results.**
* `reads_back`: the rules after any run of mutations.  The last entry inserted under a key is
  read exactly if no entry before it has an equal key with another value.
* `inserted_under_present_key`: an entry that is inserted under a key of the dictionary.
-/

namespace LiveProbe
namespace Eval

/-- The key of an entry equals the one asked for. -/
def isUnder (h : Heap) (key : Ref) (e : Ref × Ref) : Bool :=
  match h.equal e.1 key with
  | .ok equal => equal
  | .error _ => false

/-- What is read of the fields of an object. -/
structure FieldRules (out : String → Except EvalError (Ref × Heap)) (g : Heap)
    (typeName : String) (fields : List (String × Ref)) (assigned : String → List Ref) :
    Prop where
  written : ∀ name value, (assigned name).getLast? = some value → out name = .ok (value, g)
  kept : ∀ name value, assigned name = [] → Value.firstField fields name = some value →
    out name = .ok (value, g)
  missing : ∀ name, assigned name = [] → Value.firstField fields name = none →
    out name = .error (.noAttribute typeName name)

/-- What is read of a list at an index. -/
structure ItemRules (out : Except EvalError (Ref × Heap)) (g : Heap) (i : Int)
    (items pushed : List Ref) : Prop where
  front : ∀ (n : Nat) item, i = n → (items ++ pushed)[n]? = some item → out = .ok (item, g)
  back : ∀ (n : Nat) item, i = -(n + 1) → (items ++ pushed).reverse[n]? = some item →
    out = .ok (item, g)
  outside : i < -(items ++ pushed).length ∨ (items ++ pushed).length ≤ i →
    out = .error (.indexOutOfRange i (items ++ pushed).length)
  last : ∀ item, i = -1 → pushed.getLast? = some item → out = .ok (item, g)
  kept : ∀ (n : Nat) item, i = n → items[n]? = some item → out = .ok (item, g)

/-- What is read of a dictionary under a key. -/
structure EntryRules (out : Except EvalError (Ref × Heap)) (g : Heap) (key : Ref)
    (entries inserted : List (Ref × Ref)) : Prop where
  first : ∀ e, (entries ++ inserted).find? (isUnder g key) = some e → out = .ok (e.2, g)
  kept : (∀ e ∈ inserted, isUnder g key e = false) →
    ∀ e, entries.find? (isUnder g key) = some e → out = .ok (e.2, g)
  missing : (∀ e ∈ entries ++ inserted, isUnder g key e = false) →
    out = .error (.keyNotFound (g.textOf key))
  written_iff : ∀ before f after, inserted = before ++ f :: after → isUnder g key f = true →
    (∀ e ∈ after, isUnder g key e = false) →
    (out = .ok (f.2, g) ↔
      ∀ e, (entries ++ before).find? (isUnder g key) = some e → e.2 = f.2)

variable {h g g' : Heap} {b : Bindings} {e k : Expr} {r q : Ref}

/-! ### Fields -/

/-- Field access evaluates its target and then reads the field. -/
theorem run_field
    (hrun : (evaluate b e).run h = .ok (r, g))
    (name : String) :
    (evaluate b (.field e name)).run h = (fieldOf r name).run g := by
  rw [evaluate, run_bind_ok hrun]

/-- An object gives its first field of the name, or names itself and the field. -/
theorem run_fieldOf_object
    {typeName : String} {fields : List (String × Ref)} {text : Option String}
    (hread : g.read r = .object typeName fields text)
    (name : String) :
    (fieldOf r name).run g =
      (Value.firstField fields name).elim (.error (.noAttribute typeName name)) fun value =>
        .ok (value, g) := by
  rw [fieldOf, run_bind_ok (run_valueOf hread), Value.firstField]
  dsimp only
  cases fields.find? fun f => f.1 == name <;> rfl

/-- The rules for an object whose fields read as the changes say. -/
theorem fieldRules
    {out : String → Except EvalError (Ref × Heap)} {typeName : String}
    {fields fields' : List (String × Ref)} {text : Option String} {assigned : String → List Ref}
    (hout : ∀ name, out name = (fieldOf r name).run g)
    (hread : g.read r = .object typeName fields' text)
    (hfields : ∀ name, Value.firstField fields' name =
        (assigned name).getLast?.or (Value.firstField fields name)) :
    FieldRules out g typeName fields assigned where
  written name value hvalue := by
    rw [hout, run_fieldOf_object hread, hfields, hvalue]
    rfl
  kept name value hnone hvalue := by
    rw [hout, run_fieldOf_object hread, hfields, hnone, hvalue]
    rfl
  missing name hnone hfield := by
    rw [hout, run_fieldOf_object hread, hfields, hnone, hfield]
    rfl

/-! ### Items -/

section Items

variable {v : Value} {i : Int64} {n length : Nat}

/-- The place that an index means, or the range error that names it. -/
theorem place_of_integer
    (hv : v.scalar? = some (.integer i))
    (length : Nat) :
    place v length =
      if 0 ≤ (if i.toInt < 0 then i.toInt + length else i.toInt) ∧
          (if i.toInt < 0 then i.toInt + length else i.toInt) < length then
        .ok (if i.toInt < 0 then i.toInt + length else i.toInt).toNat
      else .error (.indexOutOfRange i.toInt length) := by
  cases v <;> simp_all [Value.scalar?, place]

theorem place_front
    (hv : v.scalar? = some (.integer i))
    (hi : i.toInt = n)
    (hn : n < length) :
    place v length = .ok n := by
  have hnonneg : ¬(n : Int) < 0 := by omega
  rw [place_of_integer hv, hi, if_neg hnonneg, if_pos (by omega), Int.toNat_natCast]

theorem place_back
    (hv : v.scalar? = some (.integer i))
    (hi : i.toInt = -(n + 1))
    (hn : n < length) :
    place v length = .ok (length - 1 - n) := by
  have hneg : -((n : Int) + 1) < 0 := by omega
  have hplace : (-((n : Int) + 1) + length).toNat = length - 1 - n := by omega
  rw [place_of_integer hv, hi, if_pos hneg, if_pos (by omega), hplace]

theorem place_outside
    (hv : v.scalar? = some (.integer i))
    (hi : i.toInt < -length ∨ length ≤ i.toInt) :
    place v length = .error (.indexOutOfRange i.toInt length) := by
  rw [place_of_integer hv, if_neg (by split <;> omega)]

end Items

/-- An index evaluates its target, then the index, and then reads. -/
theorem run_index
    (hrun : (evaluate b e).run h = .ok (r, g))
    (hkey : (evaluate b k).run g = .ok (q, g')) :
    (evaluate b (.index e k)).run h = (indexInto r q).run g' := by
  rw [evaluate, run_bind_ok hrun, run_bind_ok hkey]

/-- An index into a list or tuple gives the item at its place. -/
theorem run_indexInto_items
    {items : List Ref}
    (hread : g.read r = .list items ∨ g.read r = .tuple items) :
    (indexInto r q).run g =
      (place (g.read q) items.length).map fun n => (items.getD n 0, g) := by
  obtain hread | hread := hread
  all_goals
    rw [indexInto, run_bind_ok (run_valueOf hread), run_bind_ok (run_valueOf rfl)]
    dsimp only
    rw [itemOf]
    cases place (g.read q) items.length <;> rfl

theorem run_minus_one
    (b : Bindings) (g : Heap) :
    ∃ q g', (evaluate b (.negate (.int 1))).run g = .ok (q, g') ∧
      (g'.read q).scalar? = some (.integer (-1)) := by
  have hrun : (evaluate b (.negate (.int 1))).run g =
      .ok ((g.alloc (.int 1)).2.alloc (.int (-1))) := by
    rw [evaluate, evaluate]
    change (negate (g.alloc (.int 1)).1).run (g.alloc (.int 1)).2 = _
    rw [negate, run_bind_ok (run_valueOf (Heap.read_alloc_self g (.int 1)))]
    rfl
  refine ⟨_, _, hrun, ?_⟩
  exact congrArg Value.scalar? (Heap.read_alloc_self (g.alloc (.int 1)).2 (.int (-1)))

/-- The rules for a list with items pushed behind those it had. -/
theorem itemRules
    {out : Except EvalError (Ref × Heap)} {items pushed : List Ref} {i : Int64}
    (hout : out = (indexInto r q).run g)
    (hread : g.read r = .list (items ++ pushed))
    (hkey : (g.read q).scalar? = some (.integer i)) :
    ItemRules out g i.toInt items pushed := by
  have hitem : ∀ n item, place (g.read q) (items ++ pushed).length = .ok n →
      (items ++ pushed)[n]? = some item → out = .ok (item, g) := by
    intro n item hplace hn
    rw [hout, run_indexInto_items (.inl hread), hplace, Except.map, List.getD_eq_getElem?_getD, hn]
    rfl
  have hfront : ∀ (n : Nat) item, i.toInt = n → (items ++ pushed)[n]? = some item →
      out = .ok (item, g) := by
    intro n item hi hn
    exact hitem n item (place_front hkey hi (List.getElem?_eq_some_iff.1 hn).1) hn
  have hback : ∀ (n : Nat) item, i.toInt = -(n + 1) →
      (items ++ pushed).reverse[n]? = some item → out = .ok (item, g) := by
    intro n item hi hn
    have hlength : n < (items ++ pushed).length := by
      simpa only [List.length_reverse] using (List.getElem?_eq_some_iff.1 hn).1
    rw [List.getElem?_reverse hlength] at hn
    exact hitem _ item (place_back hkey hi hlength) hn
  refine ⟨hfront, hback, fun hi => ?_, fun item hi hlast => ?_, fun n item hi hn => ?_⟩
  · rw [hout, run_indexInto_items (.inl hread), place_outside hkey hi]
    rfl
  · refine hback 0 item (by simpa using hi) ?_
    rw [← List.head?_eq_getElem?, List.head?_reverse, List.getLast?_append, hlast, Option.some_or]
  · have hlength := (List.getElem?_eq_some_iff.1 hn).1
    exact hfront n item hi ((List.getElem?_append_left hlength).trans hn)

/-! ### Entries -/

/-- Where the keys can be compared, the lookup gives the first entry under the key. -/
theorem lookup_eq
    {entries : List (Ref × Ref)}
    (hkeys : ∀ e ∈ entries, ∃ equal, g.equal e.1 q = .ok equal) :
    lookup g q entries = .ok ((entries.find? (isUnder g q)).map Prod.snd) := by
  induction entries with
  | nil => rfl
  | cons e entries ih =>
      rw [List.forall_mem_cons] at hkeys
      obtain ⟨equal, hequal⟩ := hkeys.1
      have hunder : isUnder g q e = equal := by rw [isUnder, hequal]
      rw [lookup, hequal, List.find?_cons, hunder]
      cases equal with
      | true => rfl
      | false => exact ih hkeys.2

theorem run_indexInto_lookup
    {entries : List (Ref × Ref)}
    (hread : g.read r = .dict entries) :
    (indexInto r q).run g =
      lookup g q entries >>= fun found =>
        found.elim (.error (.keyNotFound (g.textOf q))) fun value => .ok (value, g) := by
  have hget : (get : Evaluating Heap).run g = .ok (g, g) := rfl
  rw [indexInto, run_bind_ok (run_valueOf hread), run_bind_ok (run_valueOf rfl)]
  dsimp only
  rw [run_bind_ok hget]
  cases lookup g q entries with
  | error fault => rfl
  | ok found => cases found <;> rfl

/-- With comparable keys, it gives the first entry under the key or names the key. -/
theorem run_indexInto_dict
    {entries : List (Ref × Ref)}
    (hread : g.read r = .dict entries)
    (hkeys : ∀ e ∈ entries, ∃ equal, g.equal e.1 q = .ok equal) :
    (indexInto r q).run g =
      (entries.find? (isUnder g q)).elim (.error (.keyNotFound (g.textOf q))) fun e =>
        .ok (e.2, g) := by
  rw [run_indexInto_lookup hread, lookup_eq hkeys]
  cases entries.find? (isUnder g q) <;> rfl

/-- The rules for a dictionary with entries inserted behind those it had. -/
theorem entryRules
    {out : Except EvalError (Ref × Heap)} {entries inserted : List (Ref × Ref)}
    (hout : out = (indexInto r q).run g)
    (hread : g.read r = .dict (entries ++ inserted))
    (hkeys : ∀ e ∈ entries ++ inserted, ∃ equal, g.equal e.1 q = .ok equal) :
    EntryRules out g q entries inserted := by
  rw [run_indexInto_dict hread hkeys] at hout
  have hfirst : ∀ e, (entries ++ inserted).find? (isUnder g q) = some e →
      out = .ok (e.2, g) := by
    intro e he
    rw [hout, he, Option.elim_some]
  refine ⟨hfirst, fun _ e he => ?_, fun hnone => ?_, fun before f after hsplit hf _ => ?_⟩
  · exact hfirst e (by rw [List.find?_append, he, Option.some_or])
  · rw [hout, List.find?_eq_none.2 fun e he => by simp [hnone e he], Option.elim_none]
  · rw [hout, hsplit, ← List.append_assoc, List.find?_append, List.find?_cons_of_pos hf]
    cases (entries ++ before).find? (isUnder g q) with
    | none => simp
    | some e => simp

/-! ### Runs of mutations -/

/-- What is read after a run of mutations. -/
theorem reads_back
    (h : Heap) (ms : List Heap.Mutation) (b : Bindings) (e : Expr) (r : Ref) (g : Heap)
    (hrun : (evaluate b e).run (h.mutateAll ms) = .ok (r, g)) :
    (∀ typeName fields text, h.read r = .object typeName fields text →
      FieldRules (fun name => (evaluate b (.field e name)).run (h.mutateAll ms)) g typeName
        fields (Heap.assigned ms r)) ∧
    (∀ items, h.read r = .list items →
      (∀ item, (Heap.pushed ms r).getLast? = some item →
        ∃ g', (evaluate b (.index e (.negate (.int 1)))).run (h.mutateAll ms) =
          .ok (item, g')) ∧
      ∀ k q g' i, (evaluate b k).run g = .ok (q, g') →
        (g'.read q).scalar? = some (.integer i) →
        ItemRules ((evaluate b (.index e k)).run (h.mutateAll ms)) g' i.toInt items
          (Heap.pushed ms r)) ∧
    ∀ entries, h.read r = .dict entries →
      (∀ f ∈ entries ++ Heap.inserted ms r, f.1 < h.size ∧ (h.read f.1).scalar?.isSome) →
      ∀ k q g', (evaluate b k).run g = .ok (q, g') →
        EntryRules ((evaluate b (.index e k)).run (h.mutateAll ms)) g' q entries
          (Heap.inserted ms r) := by
  have hgrown : (h.mutateAll ms).Extends g := grows_evaluate b e hrun
  refine ⟨fun typeName fields text hread => ?_, fun items hread => ?_,
    fun entries hread hkeys k q g' hkey => ?_⟩
  · obtain ⟨fields', hread', hfields⟩ := Heap.read_mutateAll_object hread ms
    exact fieldRules (run_field hrun) (hgrown.read_eq_of_ne_none hread' (by simp)) hfields
  · have hread' : g.read r = .list (items ++ Heap.pushed ms r) :=
      hgrown.read_eq_of_ne_none (Heap.read_mutateAll_list hread ms) (by simp)
    have hrules : ∀ k q g' i, (evaluate b k).run g = .ok (q, g') →
        (g'.read q).scalar? = some (.integer i) →
        ItemRules ((evaluate b (.index e k)).run (h.mutateAll ms)) g' i.toInt items
          (Heap.pushed ms r) := by
      intro k q g' i hkey hi
      refine itemRules (run_index hrun hkey) ?_ hi
      exact (grows_evaluate b k hkey).read_eq_of_ne_none hread' (by simp)
    refine ⟨fun item hitem => ?_, hrules⟩
    obtain ⟨q, g', hminus, hi⟩ := run_minus_one b g
    exact ⟨g', (hrules _ q g' (-1) hminus hi).last item rfl hitem⟩
  · have hgrown' : g.Extends g' := grows_evaluate b k hkey
    refine entryRules (run_index hrun hkey) ?_ fun f hf => ?_
    · exact (hgrown.trans hgrown').read_eq_of_ne_none (Heap.read_mutateAll_dict hread ms)
        (by simp)
    · obtain ⟨hlive, hscalar⟩ := hkeys f hf
      have hlive' : f.1 < (h.mutateAll ms).size := by simpa using hlive
      obtain ⟨s, hs⟩ := Option.isSome_iff_exists.1 hscalar
      rw [← Heap.read_mutateAll_of_scalar hlive hscalar ms,
        ← (hgrown.trans hgrown').read_eq _ hlive'] at hs
      exact Heap.exists_equal_of_scalar hs q

/-- An object with a name twice, a list and a dictionary with a truth value as a key. -/
def changing : Heap :=
  ⟨#[.int 1, .int 2, .int 3, .bool true, .object "Point" [("x", 0), ("x", 1)] none,
    .list [0], .dict [(3, 1)]]⟩

/-- An assignment to the field, an item pushed, and an entry under an equal key. -/
def changes : List Heap.Mutation := [.setField 4 "x" 2, .push 5 2, .insert 6 0 2]

/-- A field set twice, a list pushed to and a dictionary inserted into. -/
theorem reads_back_changing :
    (evaluate ⟨[("p", 4)]⟩ (.field (.name "p") "x")).run (changing.mutateAll changes) =
        .ok (2, changing.mutateAll changes) ∧
      (∃ g, (evaluate ⟨[("l", 5)]⟩ (.index (.name "l") (.negate (.int 1)))).run
        (changing.mutateAll changes) = .ok (2, g)) ∧
      (evaluate ⟨[("d", 6)]⟩ (.index (.name "d") (.bool true))).run
          (changing.mutateAll changes) =
        .ok (1, ((changing.mutateAll changes).alloc (.bool true)).2) := by
  have hfield := (reads_back changing changes ⟨[("p", 4)]⟩ (.name "p") 4 _ rfl).1
  have hlist := (reads_back changing changes ⟨[("l", 5)]⟩ (.name "l") 5 _ rfl).2.1
  have hdict := (reads_back changing changes ⟨[("d", 6)]⟩ (.name "d") 6 _ rfl).2.2
  refine ⟨?_, ?_, ?_⟩
  · exact (hfield "Point" _ none rfl).written "x" 2 rfl
  · exact (hlist [0] rfl).1 2 rfl
  · refine (hdict [(3, 1)] rfl (by decide) (.bool true) 7 _ rfl).first (3, 1) ?_
    have hequal : ((changing.mutateAll changes).alloc (.bool true)).2.equal 3 7 = .ok true :=
      Heap.IsImmediate.equal (.inr ⟨by decide, rfl, rfl⟩)
    have hunder : isUnder ((changing.mutateAll changes).alloc (.bool true)).2 7 (3, 1) = true := by
      rw [isUnder, hequal]
    exact List.find?_cons_of_pos hunder

/-- A dictionary, and an entry with an equal key of its own. -/
def reinserted : Heap :=
  ⟨#[.str "a", .int 1, .dict [(0, 1)], .str "a", .int 2]⟩

/-- The entry inserted under a key that the dictionary has is not the one that is read. -/
theorem inserted_under_present_key :
    Heap.inserted [.insert 2 3 4] 2 = [(3, 4)] ∧ reinserted.equal 3 0 = .ok true ∧
      (evaluate ⟨[("d", 2), ("k", 3)]⟩ (.index (.name "d") (.name "k"))).run
          (reinserted.mutateAll [.insert 2 3 4]) =
        .ok (1, reinserted.mutateAll [.insert 2 3 4]) := by
  have hequal : reinserted.equal 3 0 = .ok true :=
    Heap.IsImmediate.equal (.inr ⟨by decide, rfl, rfl⟩)
  have hkey : (reinserted.mutateAll [.insert 2 3 4]).equal 0 3 = .ok true :=
    Heap.IsImmediate.equal (.inr ⟨by decide, rfl, rfl⟩)
  refine ⟨rfl, hequal, ?_⟩
  have hfound : ∀ e ∈ [((0 : Ref), (1 : Ref)), (3, 4)],
      ∃ equal, (reinserted.mutateAll [.insert 2 3 4]).equal e.1 3 = .ok equal := by
    rw [List.forall_mem_cons, List.forall_mem_singleton]
    exact ⟨⟨true, hkey⟩, true, Heap.IsImmediate.equal (.inl ⟨rfl, rfl⟩)⟩
  have hunder : isUnder (reinserted.mutateAll [.insert 2 3 4]) 3 (0, 1) = true := by
    rw [isUnder, hkey]
  rw [run_index rfl rfl, run_indexInto_dict rfl hfound, List.find?_cons_of_pos hunder,
    Option.elim_some]

end Eval
end LiveProbe
