import Mathlib.Data.List.Nodup
import LiveProbe.Config.Service
import LiveProbe.Proofs.Json.RoundTrip
import LiveProbe.Proofs.Lists

/-!
# Canonical texts of tracepoints

The text under whose hash a set of tracepoints is put in force, and what it tells of the set.

**Input.**  Any tracepoints, with any characters in their texts.

**Format.**  A record is an object with a member for each field.  Members of absent fields are
left out, so the keys of an object are some of the record's names, each at most once
(`keys_nodup`), and a name without a member is read as an absent field.

**Results.**
* `fields?_ofMembers`: the fields of an object are those of its members.
* `ofList_entries`: a map is read back from its entries.
* `ofJson?_toJson`: each record is read back from its JSON value.
* `parseAll?_renderAll`: tracepoints are read back from their canonical text.
* `fingerprint_eq_iff`: one fingerprint is that of one set, or the texts of two sets collide.
* `unchanged_iff_collide`: only such a collision can hide an update.
-/

namespace LiveProbe

/-! ### Maps -/

namespace SortedMap

variable {α : Type}

/-- A key that is larger than all others is placed at the end. -/
theorem place_of_forall_lt
    {key : String} {es : List (String × α)}
    (value : α)
    (h : ∀ e ∈ es, e.1 < key) :
    place key value es = es ++ [(key, value)] := by
  induction es with
  | nil => rfl
  | cons e es ih =>
      rw [List.forall_mem_cons] at h
      have hlt : ¬key < e.1 := String.lt_asymm h.1
      have hne : key ≠ e.1 := fun hsame => String.lt_irrefl key (hsame ▸ h.1)
      rw [place, if_neg hlt, if_neg hne, ih h.2, List.cons_append]

/-- Entries in ascending order are inserted as they stand. -/
theorem entries_foldl_insert
    {es : List (String × α)}
    (m : SortedMap α)
    (h : Ascending (m.entries ++ es)) :
    (es.foldl (fun m e => m.insert e.1 e.2) m).entries = m.entries ++ es := by
  induction es generalizing m with
  | nil => simp
  | cons e es ih =>
      have hplace : (m.insert e.1 e.2).entries = m.entries ++ [e] :=
        place_of_forall_lt e.2 fun d hd =>
          (List.pairwise_append.mp h).2.2 d hd e List.mem_cons_self
      have hrest : Ascending ((m.insert e.1 e.2).entries ++ es) := by
        rw [hplace, List.append_assoc]
        exact h
      rw [List.foldl_cons, ih _ hrest, hplace, List.append_assoc]
      rfl

theorem ofList_entries
    (m : SortedMap α) :
    ofList m.entries = m :=
  ext_entries (entries_foldl_insert empty m.ascending)

end SortedMap

/-! ### Records -/

namespace Json

section Fields

variable {members : List (String × Json)}

/-- A name that is used once has at most one member. -/
theorem membersNamed_eq
    (h : (members.map Prod.fst).Nodup)
    (name : String) :
    membersNamed name (members.map fun m => (some m.1, m.2)) = (members.lookup name).toList := by
  induction members with
  | nil => rfl
  | cons m members ih =>
      obtain ⟨key, value⟩ := m
      rw [List.map_cons, List.nodup_cons] at h
      have hrest := ih h.2
      rw [membersNamed] at hrest ⊢
      rw [List.map_cons, List.filter_cons]
      by_cases hsame : key = name
      · subst hsame
        have hnone : members.lookup key = none := by
          refine List.lookup_eq_none_iff.mpr fun m hm => ?_
          have hmem : m.1 ∈ members.map Prod.fst := List.mem_map_of_mem hm
          have hne : key ≠ m.1 := fun hkey => h.1 (hkey ▸ hmem)
          simpa using hne
        rw [hnone] at hrest
        simp [hrest]
      · rw [SortedMap.lookup_cons_of_ne members (Ne.symm hsame), ← hrest]
        simp [hsame]

/-- The fields of an object are looked up among its members. -/
theorem fields?_ofMembers
    (h : (members.map Prod.fst).Nodup)
    (names : List String) :
    fields? names (ofMembers members) = some (names.map fun name => members.lookup name) := by
  have htexts : ((members.map fun m => (some m.1, m.2)).any fun m => m.1.isNone) = false := by
    simp
  rw [ofMembers, fields?, htexts, if_neg Bool.false_ne_true]
  refine List.mapM_eq_some fun name _ => ?_
  rw [membersNamed_eq h]
  rcases members.lookup name with _ | _ <;> rfl

/-- An optional member is found under its own name, if it is there. -/
theorem lookup_optional
    {α : Type}
    (name other : String) (write : α → Json) (x : Option α) :
    (optional name write x).lookup other = if other = name then x.map write else none := by
  rcases x with _ | x
  · simp [optional]
  · rw [optional]
    split
    · next hsame => simp [hsame]
    · next hne => exact SortedMap.lookup_cons_of_ne [] hne

theorem keys_optional
    {α : Type}
    (name : String) (write : α → Json) (x : Option α) :
    ((optional name write x).map Prod.fst).Sublist [name] := by
  rcases x with _ | x
  · exact List.nil_sublist _
  · exact List.Sublist.refl _

end Fields

/-! ### Fields -/

section Read

variable {α : Type} {read : Json → Option α} {write : α → Json}

theorem text?_ofString
    (s : String) :
    text? (ofString s) = some s :=
  rfl

theorem nullable_text
    (x : Option String) :
    nullable text? (x.map ofString) = some x := by
  rcases x with _ | s <;> rfl

theorem list?_map
    (h : ∀ x, read (write x) = some x)
    (xs : List α) :
    list? read (.array (xs.map write)) = some xs := by
  rw [list?, List.mapM_map]
  refine (List.mapM_eq_some fun x _ => h x).trans ?_
  rw [List.map_id']

theorem map?_ofMap
    (h : ∀ x, read (write x) = some x)
    (m : SortedMap α) :
    map? read (ofMap write m) = some m := by
  have hentries : entries? read (ofMap write m) = some m.entries := by
    rw [ofMap, ofMembers, entries?, List.map_map, List.mapM_map]
    refine (List.mapM_eq_some (g := fun e => e) fun e _ => ?_).trans ?_
    · simp [h]
    · rw [List.map_id']
  rw [map?, hentries, Option.map_some, SortedMap.ofList_entries]

theorem word32?_toNat
    (n : UInt32) :
    word32? (.int n.toNat) = some n := by
  have hbound : (0 : Int) ≤ n.toNat ∧ (n.toNat : Int) ≤ 0xFFFFFFFF := by
    have := n.toNat_lt
    omega
  rw [word32?, intIn?, Text.Bounds.unsigned32, if_pos hbound]
  simp

theorem named?_ofString
    {parse? : String → Option α} {name : α → String}
    (h : ∀ x, parse? (name x) = some x)
    (x : α) :
    named? parse? (ofString (name x)) = some x :=
  h x

end Read

/-! ### Members -/

section Members

variable {α : Type} {write : α → Json}

/-- An optional member is writable if its value is. -/
theorem IsWritten.optional
    (name : String)
    (h : ∀ x, IsWritten (write x))
    (x : Option α) :
    ∀ m ∈ Json.optional name write x, IsWritten m.2 := by
  rcases x with _ | x
  · exact List.forall_mem_nil _
  · exact List.forall_mem_singleton.mpr (h x)

theorem IsWritten.list_map
    (h : ∀ x, IsWritten (write x))
    (xs : List α) :
    IsWritten (.array (xs.map write)) :=
  .list (List.forall_mem_map.mpr fun x _ => h x)

theorem IsWritten.ofMap
    (h : ∀ x, IsWritten (write x))
    (m : SortedMap α) :
    IsWritten (Json.ofMap write m) :=
  .record (List.forall_mem_map.mpr fun e _ => h e.2)

end Members
end Json

open Json

namespace LabelExpression

/-- The members of a label. -/
def members (l : LabelExpression) : List (String × Json) :=
  [("key", ofString l.key)] ++ optional "static" ofString l.fixed ++
    optional "expression" ofString l.expression

theorem keys_nodup
    (l : LabelExpression) :
    (l.members.map Prod.fst).Nodup := by
  have hnames : (["key"] ++ ["static"] ++ ["expression"]).Nodup := by decide
  refine hnames.sublist ?_
  rw [members, List.map_append, List.map_append]
  exact ((List.Sublist.refl _).append (keys_optional _ _ _)).append (keys_optional _ _ _)

theorem isWritten
    (l : LabelExpression) :
    IsWritten l.toJson := by
  refine .record ?_
  simp only [List.forall_mem_append, List.forall_mem_singleton]
  exact ⟨⟨.text l.key, .optional _ .text _⟩, .optional _ .text _⟩

theorem ofJson?_toJson
    (l : LabelExpression) :
    ofJson? l.toJson = some l := by
  have hfields := fields?_ofMembers l.keys_nodup ["key", "static", "expression"]
  rw [members] at hfields
  rw [ofJson?, toJson, hfields]
  simp [List.lookup_cons, List.lookup_append, lookup_optional, nullable_text, required,
    text?_ofString]

end LabelExpression

namespace MetricDefinition

/-- The members of a metric. -/
def members (m : MetricDefinition) : List (String × Json) :=
  [("name", ofString m.name), ("labels", .array (m.labels.map LabelExpression.toJson)),
    ("type", ofString m.metricType.name)] ++ optional "expression" ofString m.expression ++
    optional "namespace" ofString m.scope ++ optional "help" ofString m.help ++
    optional "unit" ofString m.unit

/-- The members of a metric have different names. -/
theorem keys_nodup
    (m : MetricDefinition) :
    (m.members.map Prod.fst).Nodup := by
  have hnames :
      (["name", "labels", "type"] ++ ["expression"] ++ ["namespace"] ++ ["help"] ++
        ["unit"]).Nodup := by
    decide
  refine hnames.sublist ?_
  simp only [members, List.map_append]
  exact ((((List.Sublist.refl _).append (keys_optional _ _ _)).append
    (keys_optional _ _ _)).append (keys_optional _ _ _)).append (keys_optional _ _ _)

theorem isWritten
    (m : MetricDefinition) :
    IsWritten m.toJson := by
  refine .record ?_
  simp only [List.forall_mem_append, List.forall_mem_cons]
  exact ⟨⟨⟨⟨⟨.text m.name, .list_map LabelExpression.isWritten _, .text _, List.forall_mem_nil _⟩,
    .optional _ .text _⟩, .optional _ .text _⟩, .optional _ .text _⟩, .optional _ .text _⟩

theorem ofJson?_toJson
    (m : MetricDefinition) :
    ofJson? m.toJson = some m := by
  have hfields := fields?_ofMembers m.keys_nodup
    ["name", "labels", "type", "expression", "namespace", "help", "unit"]
  have hlabels := list?_map LabelExpression.ofJson?_toJson m.labels
  have htype := named?_ofString MetricType.parse?_name m.metricType
  rw [members] at hfields
  rw [ofJson?, toJson, hfields]
  simp [List.lookup_cons, List.lookup_append, lookup_optional, nullable_text, required, orElse,
    text?_ofString, hlabels, htype]

end MetricDefinition

namespace Tracepoint

/-- The members of a tracepoint. -/
def members (tp : Tracepoint) : List (String × Json) :=
  [("id", ofString tp.id), ("path", ofString tp.path), ("line_no", .int tp.lineNo.toNat),
    ("args", ofMap ofString tp.args), ("watches", .array (tp.watches.map ofString)),
    ("metrics", .array (tp.metrics.map MetricDefinition.toJson))]

/-- The members of a tracepoint have different names. -/
theorem keys_nodup
    (tp : Tracepoint) :
    (tp.members.map Prod.fst).Nodup := by
  have hnames : ["id", "path", "line_no", "args", "watches", "metrics"].Nodup := by decide
  exact hnames

theorem isWritten
    (tp : Tracepoint) :
    IsWritten tp.toJson := by
  have hline : tp.lineNo.toNat < 10 ^ 20 := by
    have := tp.lineNo.toNat_lt
    omega
  refine .record ?_
  simp only [List.forall_mem_cons]
  exact ⟨.text tp.id, .text tp.path, .number hline, .ofMap .text tp.args, .list_map .text _,
    .list_map MetricDefinition.isWritten _, List.forall_mem_nil _⟩

theorem ofJson?_toJson
    (tp : Tracepoint) :
    ofJson? tp.toJson = some tp := by
  have hfields := fields?_ofMembers tp.keys_nodup
    ["id", "path", "line_no", "args", "watches", "metrics"]
  have hline := word32?_toNat tp.lineNo
  have hargs := map?_ofMap text?_ofString tp.args
  have hwatches := list?_map text?_ofString tp.watches
  have hmetrics := list?_map MetricDefinition.ofJson?_toJson tp.metrics
  rw [members] at hfields
  rw [ofJson?, toJson, hfields]
  simp [List.lookup_cons, required, orElse, text?_ofString, hline, hargs, hwatches, hmetrics]

/-- A list of tracepoints is read back from its text. -/
theorem parseAll?_renderAll
    (tps : List Tracepoint) :
    parseAll? (renderAll tps) = some tps := by
  have hwritten := parse?_render (.list_map isWritten tps)
  rw [parseAll?, renderAll, hwritten]
  exact list?_map ofJson?_toJson tps

/-- The text of a list of tracepoints tells them all apart. -/
theorem renderAll_injective
    {tps others : List Tracepoint}
    (h : renderAll others = renderAll tps) :
    others = tps := by
  have hread := parseAll?_renderAll others
  rw [h, parseAll?_renderAll] at hread
  exact (Option.some.inj hread).symm

end Tracepoint

/-! ### Collisions -/

namespace Hash

/-- The hash of a text, closed by a byte that no text holds. -/
def ofText (text : String) : UInt64 := sip (text.toUTF8.toList ++ [0xff])

/-- Two texts have one hash. -/
def Collide (text other : String) : Prop := text ≠ other ∧ ofText text = ofText other

theorem hex64_ne_empty
    (x : UInt64) :
    hex64 x ≠ "" := by
  simp [hex64]

end Hash

namespace Tracepoint

/-- Lists of tracepoints have one fingerprint if they are the same, or if their texts collide. -/
theorem fingerprint_eq_iff
    (tps others : List Tracepoint) :
    fingerprint others = fingerprint tps ↔
      others = tps ∨ Hash.Collide (renderAll others) (renderAll tps) := by
  have hhash :
      fingerprint others = fingerprint tps ↔
        Hash.ofText (renderAll others) = Hash.ofText (renderAll tps) :=
    ⟨Hash.hex64_injective, congrArg Hash.hex64⟩
  rw [hhash]
  constructor
  · intro hsame
    by_cases htext : renderAll others = renderAll tps
    · exact .inl (renderAll_injective htext)
    · exact .inr ⟨htext, hsame⟩
  · rintro (rfl | ⟨-, hsame⟩)
    · rfl
    · exact hsame

end Tracepoint

namespace ConfigService

variable {κ : Type} {s : ConfigService κ}

/-- Sets are given one after the other, each under its fingerprint. -/
def updateAllComputed (s : ConfigService κ) (sets : List (Nat × List Tracepoint)) :
    ConfigService κ :=
  sets.foldl (fun s set => (s.updateComputed set.1 set.2).1) s

/-- The active set is under its fingerprint. -/
def IsComputed (s : ConfigService κ) : Prop :=
  s.state.hash = Tracepoint.fingerprint s.state.tracepoints

/-- An update changes nothing if the fingerprint is the one in force. -/
theorem updateComputed_eq_none_iff
    (ts : Nat) (others : List Tracepoint) :
    (s.updateComputed ts others).2 = none ↔ s.state.hash = Tracepoint.fingerprint others := by
  rw [updateComputed, update, isChanged]
  split <;> simp_all

/-- A change puts tracepoints, fingerprint and time in force. -/
theorem updateComputed_of_isSome
    {ts : Nat} {tps : List Tracepoint}
    (h : (s.updateComputed ts tps).2.isSome) :
    (s.updateComputed ts tps).1.state = ⟨Tracepoint.fingerprint tps, tps, ts⟩ := by
  rw [updateComputed, update] at h ⊢
  split at h
  · next hchanged => rw [if_pos hchanged]
  · cases h

/-- The hash in force stays the fingerprint of the tracepoints in force. -/
theorem IsComputed.updateComputed
    (h : s.IsComputed)
    (ts : Nat) (tps : List Tracepoint) :
    (s.updateComputed ts tps).1.IsComputed := by
  rw [ConfigService.updateComputed, update]
  split
  · rfl
  · exact h

theorem IsComputed.updateAllComputed
    (h : s.IsComputed)
    (sets : List (Nat × List Tracepoint)) :
    (s.updateAllComputed sets).IsComputed := by
  induction sets generalizing s with
  | nil => exact h
  | cons set sets ih => exact ih (h.updateComputed set.1 set.2)

/-- A list of tracepoints changes nothing if it is the one in force, or if the texts collide. -/
theorem IsComputed.unchanged_iff
    (h : s.IsComputed)
    (ts : Nat) (others : List Tracepoint) :
    (s.updateComputed ts others).2 = none ↔
      others = s.state.tracepoints ∨
        Hash.Collide (Tracepoint.renderAll others) (Tracepoint.renderAll s.state.tracepoints) := by
  rw [updateComputed_eq_none_iff, h, eq_comm, Tracepoint.fingerprint_eq_iff]

/-- Whether a set is taken over or is taken for unchanged, its fingerprint is the hash then. -/
theorem hash_updateComputed
    (ts : Nat) (tps : List Tracepoint) :
    (s.updateComputed ts tps).1.state.hash = Tracepoint.fingerprint tps := by
  rw [updateComputed, update, isChanged]
  split
  · rfl
  · next hsame => simpa using hsame

theorem updateComputed_empty
    (ts : Nat) (tps : List Tracepoint) :
    ((empty : ConfigService κ).updateComputed ts tps).2.isSome := by
  rw [Option.isSome_iff_ne_none, ne_eq, updateComputed_eq_none_iff]
  exact (Hash.hex64_ne_empty _).symm

/-- Tracepoints are read back from their canonical text, so different sets have different
texts.  Whatever came before, after a set was given under its fingerprint only an equal set or
one whose text collides with it is taken for unchanged; and once a set was put in force so, the
same holds of the set that is active.  A fresh service puts any set in force. -/
theorem unchanged_iff_collide
    (tps others : List Tracepoint) :
    Tracepoint.parseAll? (Tracepoint.renderAll tps) = some tps ∧
      (others ≠ tps → Tracepoint.renderAll others ≠ Tracepoint.renderAll tps) ∧
      (∀ {κ : Type} (s : ConfigService κ) (ts ts' : Nat),
        ((s.updateComputed ts tps).1.updateComputed ts' others).2 = none ↔
          others = tps ∨
            Hash.Collide (Tracepoint.renderAll others) (Tracepoint.renderAll tps)) ∧
      (∀ {κ : Type} (s : ConfigService κ) (ts : Nat), (s.updateComputed ts tps).2.isSome →
        (s.updateComputed ts tps).1.state.tracepoints = tps ∧
        ∀ (sets : List (Nat × List Tracepoint)) (ts' : Nat),
          let active := (s.updateComputed ts tps).1.updateAllComputed sets
          (active.updateComputed ts' others).2 = none ↔
            others = active.state.tracepoints ∨
              Hash.Collide (Tracepoint.renderAll others)
                (Tracepoint.renderAll active.state.tracepoints)) ∧
      ∀ {κ : Type} (ts : Nat), ((empty : ConfigService κ).updateComputed ts tps).2.isSome := by
  refine ⟨Tracepoint.parseAll?_renderAll tps, mt Tracepoint.renderAll_injective, ?_, ?_,
    fun ts => updateComputed_empty ts tps⟩
  · intro κ s ts ts'
    rw [updateComputed_eq_none_iff, hash_updateComputed, eq_comm, Tracepoint.fingerprint_eq_iff]
  · intro κ s ts hupdated
    have hstate := updateComputed_of_isSome hupdated
    have hcomputed : (s.updateComputed ts tps).1.IsComputed := by
      rw [IsComputed, hstate]
    refine ⟨?_, fun sets ts' => ?_⟩
    · rw [hstate]
    · exact (hcomputed.updateAllComputed sets).unchanged_iff ts' others

/-- Of a set with quotes, controls and an emoji: it is put in force, is taken for unchanged when
it comes again, and has another text than no tracepoints. -/
theorem unchanged_iff_collide_quoted :
    let tps : List Tracepoint :=
      [⟨"\"\\", "\x01\n", 7, .ofList [("b", "😀"), ("a", "")], ["x"],
        [⟨"m", [⟨"k", none, some "e"⟩], .gauge, none, some "s", none, some "u"⟩]⟩]
    let s : ConfigService Unit := (empty.updateComputed 1 tps).1
    Tracepoint.renderAll [] ≠ Tracepoint.renderAll tps ∧
      s.state.tracepoints = tps ∧ (s.updateComputed 2 tps).2 = none := by
  intro tps s
  obtain ⟨-, hdiffer, -⟩ := unchanged_iff_collide tps []
  obtain ⟨-, -, hlast, hactive, hfresh⟩ := unchanged_iff_collide tps tps
  exact ⟨hdiffer (List.cons_ne_nil _ _).symm, (hactive empty 1 (hfresh 1)).1,
    (hlast empty 1 2).2 (.inl rfl)⟩

end ConfigService
end LiveProbe
