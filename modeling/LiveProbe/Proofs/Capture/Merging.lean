import LiveProbe.Capture.Config
import Mathlib.Order.Bounds.Basic

/-!
# Merged bounds

The bounds of a capture, compared with what the tracepoints ask for.

**Specification.**  Each setting is told by a number, a policy by its rank
(`CaptureConfig.amount`).  A tracepoint asks for what it sets itself, and for the default of a
number that it leaves open (`CaptureConfig.asked`).

**Results.**
* `requested_isWithin_merged`, `merged_isWithin`: all that some tracepoint asks for is
  granted, and nothing else.
* `merged_eq_requested`: a tracepoint alone gets what it asks for.
* `merged_isWithin_merged`: more tracepoints only widen the bounds.
* `merged_is_greatest`: each setting is the largest that is asked for, whatever the order and
  the repetitions.
-/

namespace LiveProbe
namespace CaptureConfig

/-- Bounds that are no wider than others. -/
def IsWithin (a b : CaptureConfig) : Prop := a.union b = b

theorem IsWithin.union_right
    {a b : CaptureConfig}
    (h : a.IsWithin b)
    (c : CaptureConfig) :
    a.IsWithin (b.union c) := by
  unfold IsWithin at *
  rw [← union_assoc, h]

theorem IsWithin.union
    {a b c : CaptureConfig}
    (ha : a.IsWithin c)
    (hb : b.IsWithin c) :
    (a.union b).IsWithin c := by
  unfold IsWithin at *
  rw [union_assoc, hb, ha]

theorem IsWithin.antisymm
    {a b : CaptureConfig}
    (hab : a.IsWithin b)
    (hba : b.IsWithin a) :
    a = b := by
  rw [IsWithin] at hab hba
  rw [← hba, union_comm, hab]

/-- All that was there or is asked for lies within the fold. -/
theorem isWithin_foldl
    {defaults a b : CaptureConfig} {tps : List Tracepoint}
    (h : a.IsWithin b ∨ ∃ tp ∈ tps, a.IsWithin (requested defaults tp)) :
    a.IsWithin (tps.foldl (fun acc tp => acc.union (requested defaults tp)) b) := by
  induction tps generalizing b with
  | nil =>
      rcases h with hb | ⟨tp, htp, _⟩
      · exact hb
      · cases htp
  | cons first rest ih =>
      rw [List.foldl_cons]
      rcases h with hb | ⟨tp, htp, ha⟩
      · exact ih (.inl (hb.union_right _))
      · rcases List.mem_cons.1 htp with rfl | hrest
        · exact ih (.inl (union_comm _ b ▸ ha.union_right b))
        · exact ih (.inr ⟨tp, hrest, ha⟩)

/-- The fold lies within all bounds that contain its parts. -/
theorem foldl_isWithin
    {defaults a b : CaptureConfig} {tps : List Tracepoint}
    (ha : a.IsWithin b)
    (hall : ∀ tp ∈ tps, (requested defaults tp).IsWithin b) :
    (tps.foldl (fun acc tp => acc.union (requested defaults tp)) a).IsWithin b := by
  induction tps generalizing a with
  | nil =>
      exact ha
  | cons tp rest ih =>
      obtain ⟨htp, hrest⟩ := List.forall_mem_cons.1 hall
      exact ih (ha.union htp) hrest

/-- What a tracepoint asks for is granted. -/
theorem requested_isWithin_merged
    {defaults : CaptureConfig} {tp : Tracepoint} {tps : List Tracepoint}
    (htp : tp ∈ tps) :
    (requested defaults tp).IsWithin (merged defaults tps) := by
  cases tps with
  | nil =>
      cases htp
  | cons first rest =>
      refine isWithin_foldl ?_
      rcases List.mem_cons.1 htp with rfl | hrest
      · exact .inl (union_self _)
      · exact .inr ⟨tp, hrest, union_self _⟩

/-- Nothing is granted that no tracepoint asks for. -/
theorem merged_isWithin
    {defaults b : CaptureConfig} {tps : List Tracepoint}
    (hne : tps ≠ [])
    (hall : ∀ tp ∈ tps, (requested defaults tp).IsWithin b) :
    (merged defaults tps).IsWithin b := by
  cases tps with
  | nil =>
      exact absurd rfl hne
  | cons first rest =>
      obtain ⟨hfirst, hrest⟩ := List.forall_mem_cons.1 hall
      exact foldl_isWithin hfirst hrest

/-- A tracepoint alone gets what it asks for. -/
theorem merged_eq_requested
    {defaults : CaptureConfig} {tp : Tracepoint} {tps : List Tracepoint}
    (htp : tp ∈ tps)
    (hsame : ∀ other ∈ tps, other = tp) :
    merged defaults tps = requested defaults tp := by
  refine IsWithin.antisymm (merged_isWithin (List.ne_nil_of_mem htp) fun other hother => ?_)
    (requested_isWithin_merged htp)
  rw [hsame other hother]
  exact union_self _

/-- More tracepoints only widen the bounds. -/
theorem merged_isWithin_merged
    {defaults : CaptureConfig} {tps tps' : List Tracepoint}
    (hne : tps ≠ [])
    (hsub : tps ⊆ tps') :
    (merged defaults tps).IsWithin (merged defaults tps') :=
  merged_isWithin hne fun _ htp => requested_isWithin_merged (hsub htp)

/-! ### Setting by setting -/

/-- The settings of a capture. -/
inductive Field
  | varDepth | variables | collectionSize | stringLength | processTime | frames | callers

/-- How much is granted. -/
def amount (c : CaptureConfig) : Field → Nat
  | .varDepth => c.maxVarDepth
  | .variables => c.maxVariables
  | .collectionSize => c.maxCollectionSize
  | .stringLength => c.maxStringLength
  | .processTime => c.maxProcessTimeMs
  | .frames => c.frameType.rank
  | .callers => c.stackType.rank

/-- How much a tracepoint asks for. -/
def asked (defaults : CaptureConfig) (tp : Tracepoint) : Field → Nat
  | .varDepth => tp.maxVarDepth?.getD defaults.maxVarDepth
  | .variables => tp.maxVariables?.getD defaults.maxVariables
  | .collectionSize => tp.maxCollectionSize?.getD defaults.maxCollectionSize
  | .stringLength => tp.maxStringLength?.getD defaults.maxStringLength
  | .processTime => tp.maxProcessTimeMs?.getD defaults.maxProcessTimeMs
  | .frames => tp.frameType.rank
  | .callers => tp.stackType.rank

theorem frameType_eq_of_rank
    {t u : FrameType}
    (h : t.rank = u.rank) :
    t = u := by
  cases t <;> cases u <;> cases h <;> rfl

theorem stackType_eq_of_rank
    {t u : StackType}
    (h : t.rank = u.rank) :
    t = u := by
  cases t <;> cases u <;> cases h <;> rfl

theorem eq_of_amount
    {a b : CaptureConfig}
    (h : ∀ f, a.amount f = b.amount f) :
    a = b := by
  rw [mk.injEq]
  exact ⟨h .varDepth, h .variables, h .collectionSize, h .stringLength, h .processTime,
    frameType_eq_of_rank (h .frames), stackType_eq_of_rank (h .callers)⟩

/-- What a tracepoint asks for, setting by setting. -/
theorem amount_requested
    (defaults : CaptureConfig) (tp : Tracepoint) (f : Field) :
    (requested defaults tp).amount f = asked defaults tp f := by
  cases f <;> rfl

/-- A union has the larger amount of each setting, also for the policies. -/
theorem amount_union
    (a b : CaptureConfig) (f : Field) :
    (a.union b).amount f = max (a.amount f) (b.amount f) := by
  cases f with
  | frames =>
      simp only [amount, union]
      cases a.frameType <;> cases b.frameType <;> rfl
  | callers =>
      simp only [amount, union]
      cases a.stackType <;> cases b.stackType <;> rfl
  | _ => rfl

/-- To be within is to grant no more of any setting. -/
theorem isWithin_iff
    {a b : CaptureConfig} :
    a.IsWithin b ↔ ∀ f, a.amount f ≤ b.amount f := by
  constructor
  · intro h f
    rw [← h, amount_union]
    exact Nat.le_max_left _ _
  · intro h
    refine eq_of_amount fun f => ?_
    rw [amount_union, Nat.max_eq_right (h f)]

/-- What is merged is asked for by the one that was there or by a further one. -/
theorem exists_asked_foldl
    (defaults a : CaptureConfig) (tps : List Tracepoint) (f : Field) :
    (tps.foldl (fun acc tp => acc.union (requested defaults tp)) a).amount f = a.amount f ∨
      ∃ tp ∈ tps, (tps.foldl (fun acc tp => acc.union (requested defaults tp)) a).amount f =
        asked defaults tp f := by
  induction tps generalizing a with
  | nil => exact .inl rfl
  | cons tp rest ih =>
      rw [List.foldl_cons]
      rcases ih (a.union (requested defaults tp)) with hfirst | ⟨other, hother, hasked⟩
      · rw [hfirst, amount_union, amount_requested]
        rcases Nat.le_total (a.amount f) (asked defaults tp f) with hle | hle
        · exact .inr ⟨tp, List.mem_cons_self, Nat.max_eq_right hle⟩
        · exact .inl (Nat.max_eq_left hle)
      · exact .inr ⟨other, List.mem_cons_of_mem tp hother, hasked⟩

/-- Each amount that is granted is one that some tracepoint asks for. -/
theorem exists_asked_merged
    {tps : List Tracepoint}
    (defaults : CaptureConfig)
    (hne : tps ≠ [])
    (f : Field) :
    ∃ tp ∈ tps, (merged defaults tps).amount f = asked defaults tp f := by
  cases tps with
  | nil => exact absurd rfl hne
  | cons first rest =>
      rcases exists_asked_foldl defaults (requested defaults first) rest f with
        hfirst | ⟨tp, htp, hasked⟩
      · exact ⟨first, List.mem_cons_self, hfirst.trans (amount_requested defaults first f)⟩
      · exact ⟨tp, List.mem_cons_of_mem first htp, hasked⟩

/-- Of each setting the largest amount that a tracepoint asks for is granted, and each policy is
that of a tracepoint.  Order and repetitions do not count, and further tracepoints lower no
setting. -/
theorem merged_is_greatest
    (defaults : CaptureConfig)
    {tps : List Tracepoint}
    (hne : tps ≠ []) :
    (∀ f, IsGreatest {n | ∃ tp ∈ tps, n = asked defaults tp f} ((merged defaults tps).amount f)) ∧
      (∃ tp ∈ tps, (merged defaults tps).frameType = tp.frameType) ∧
      (∃ tp ∈ tps, (merged defaults tps).stackType = tp.stackType) ∧
      (∀ tps', tps ⊆ tps' → tps' ⊆ tps → merged defaults tps' = merged defaults tps) ∧
      ∀ tps', tps ⊆ tps' → ∀ f,
        (merged defaults tps).amount f ≤ (merged defaults tps').amount f := by
  refine ⟨fun f => ⟨exists_asked_merged defaults hne f, ?_⟩, ?_, ?_, fun tps' hsub hsub' => ?_,
    fun tps' hsub => ?_⟩
  · rintro n ⟨tp, htp, rfl⟩
    rw [← amount_requested]
    exact isWithin_iff.1 (requested_isWithin_merged htp) f
  · obtain ⟨tp, htp, hrank⟩ := exists_asked_merged defaults hne .frames
    exact ⟨tp, htp, frameType_eq_of_rank hrank⟩
  · obtain ⟨tp, htp, hrank⟩ := exists_asked_merged defaults hne .callers
    exact ⟨tp, htp, stackType_eq_of_rank hrank⟩
  · obtain ⟨tp, htp⟩ := List.exists_mem_of_ne_nil tps hne
    exact (merged_isWithin_merged (List.ne_nil_of_mem (hsub htp)) hsub').antisymm
      (merged_isWithin_merged hne hsub)
  · exact isWithin_iff.1 (merged_isWithin_merged hne hsub)

/-- Asks for little, and for a number of variables that is none. -/
def narrow : Tracepoint where
  id := "narrow"
  path := "handler.py"
  lineNo := 3
  args := .ofList [("MAX_VAR_DEPTH", " 2 "), ("MAX_VARIABLES", "few"), ("frame_type", "no_frame")]
  watches := []
  metrics := []

/-- Leaves the depth open. -/
def wide : Tracepoint where
  id := "wide"
  path := "handler.py"
  lineNo := 3
  args := .ofList [("MAX_VARIABLES", "7"), ("frame_type", "all_frame")]
  watches := []
  metrics := []

theorem merged_is_greatest_mixed :
    [narrow, wide] ≠ [] ∧
      IsGreatest {n | ∃ tp ∈ [narrow, wide], n = asked standard tp .variables} 1000 ∧
      asked standard narrow .varDepth = 2 ∧
      (merged standard [narrow, wide]).amount .varDepth = 5 ∧
      (merged standard [wide, narrow, wide]).frameType = .allFrame := by
  have hne : [narrow, wide] ≠ [] := List.cons_ne_nil _ _
  obtain ⟨hgreatest, -, -, hsame, -⟩ := merged_is_greatest standard hne
  have hrepeated := hsame [wide, narrow, wide] (by decide) (by decide)
  refine ⟨hne, hgreatest .variables, by rfl, by rfl, ?_⟩
  rw [hrepeated]
  rfl

end CaptureConfig
end LiveProbe
