import Mathlib.Logic.ExistsUnique
import LiveProbe.Trigger.Location

/-!
# Which paths match

A configured path matches the paths that end in it behind a separator.

**Specification.**  The current directory may stand at the front of a configured path any
number of times.  What is left without it is its bare path (`Path.IsBareOf`), and a path
ends behind a separator in another one if one of the two separators stands right before
that end (`Path.EndsBehind`).

**Exact and bare paths.**  Equality is asked with the configured path as it was written,
the end of a path with the bare one.  The path at run time that is the bare path itself
is thus missed if the configured one has the current directory in front, and that is the
only path that is missed.

**Results.**
* `Path.exists_unique_bareOf`: every path has one bare path.
* `Path.pathsMatch_iff_suffix`: which paths match, for which of them the current directory
  in front makes a difference, and what becomes of a location.
* `Path.pathsMatch_misses_bare`: a path in the current directory is missed.
-/

namespace LiveProbe
namespace Path

/-- The path that is left of another one without the current directory at its front, however
often it stands there. -/
structure IsBareOf (bare configured : String) : Prop where
  behind : ∃ n, configured.toList = (List.replicate n ['.', '/']).flatten ++ bare.toList
  bare : ¬ ['.', '/'] <+: bare.toList

/-- The first path has the second one as its end, behind a separator. -/
def EndsBehind (runtime bare : String) : Prop :=
  ∃ lead separator, (separator = '/' ∨ separator = '\\') ∧
    runtime.toList = lead ++ separator :: bare.toList

/-- What ends behind a separator is longer than its end. -/
theorem EndsBehind.ne
    {runtime bare : String}
    (h : EndsBehind runtime bare) :
    runtime ≠ bare := by
  rintro rfl
  obtain ⟨lead, separator, -, hruntime⟩ := h
  have hlength := congrArg List.length hruntime
  rw [List.length_append, List.length_cons] at hlength
  omega

/-! ### Bare paths -/

/-- All leading marks of the present directory are dropped. -/
theorem dropHere_replicate
    (n : Nat) (cs : List Char) :
    dropHere ((List.replicate n ['.', '/']).flatten ++ cs) = dropHere cs := by
  induction n with
  | zero => rfl
  | succ n ih =>
      rw [List.replicate_succ, List.flatten_cons, List.append_assoc]
      exact ih

theorem dropHere_eq_self
    {cs : List Char}
    (h : ¬ ['.', '/'] <+: cs) :
    dropHere cs = cs := by
  rw [dropHere.eq_def]
  split
  · next rest => exact absurd ⟨rest, rfl⟩ h
  · rfl

theorem exists_dropHere
    (cs : List Char) :
    (∃ n, cs = (List.replicate n ['.', '/']).flatten ++ dropHere cs) ∧
      ¬ ['.', '/'] <+: dropHere cs := by
  fun_induction dropHere cs with
  | case1 cs ih =>
      obtain ⟨⟨n, hn⟩, hbare⟩ := ih
      refine ⟨⟨n + 1, ?_⟩, hbare⟩
      rw [List.replicate_succ, List.flatten_cons, List.append_assoc, ← hn]
      rfl
  | case2 cs hother =>
      refine ⟨⟨0, rfl⟩, ?_⟩
      rintro ⟨rest, rfl⟩
      exact hother rest rfl

section

variable {configured bare : String}

theorem IsBareOf.dropHere_eq
    (h : IsBareOf bare configured) :
    dropHere configured.toList = bare.toList := by
  obtain ⟨n, hn⟩ := h.behind
  rw [hn, dropHere_replicate, dropHere_eq_self h.bare]

theorem exists_unique_bareOf
    (configured : String) :
    ∃! bare, IsBareOf bare configured := by
  obtain ⟨hbehind, hbare⟩ := exists_dropHere configured.toList
  refine ⟨String.ofList (dropHere configured.toList), ⟨?_, ?_⟩, ?_⟩
  · rw [String.toList_ofList]
    exact hbehind
  · rw [String.toList_ofList]
    exact hbare
  · intro other hother
    rw [hother.dropHere_eq, String.ofList_toList]

/-- The current directory once more in front leaves the bare path. -/
theorem IsBareOf.here
    (h : IsBareOf bare configured) :
    IsBareOf bare ("./" ++ configured) := by
  obtain ⟨n, hn⟩ := h.behind
  refine ⟨⟨n + 1, ?_⟩, h.bare⟩
  rw [String.toList_append, hn, List.replicate_succ, List.flatten_cons, List.append_assoc]
  rfl

/-- A path with the current directory in front ends in its bare path. -/
theorem IsBareOf.endsBehind
    (h : IsBareOf bare configured)
    (hne : configured ≠ bare) :
    EndsBehind configured bare := by
  obtain ⟨n, hn⟩ := h.behind
  cases n with
  | zero => exact absurd (String.toList_injective hn) hne
  | succ n =>
      refine ⟨(List.replicate n ['.', '/']).flatten ++ ['.'], '/', Or.inl rfl, ?_⟩
      rw [hn, List.replicate_succ', List.flatten_append]
      simp

/-! ### Matching -/

/-- Paths match if they are equal, or if one ends behind a separator in the bare form of the
other. -/
theorem pathsMatch_iff
    (h : IsBareOf bare configured)
    (runtime : String) :
    pathsMatch runtime configured = true ↔
      runtime = configured ∨ EndsBehind runtime bare := by
  have hseparator : ∀ c, isSeparator c = true ↔ c = '/' ∨ c = '\\' := by
    intro c
    rw [isSeparator, Bool.or_eq_true, beq_iff_eq, beq_iff_eq]
  rw [pathsMatch, Bool.or_eq_true, beq_iff_eq, h.dropHere_eq, endsBehindSeparator_iff]
  simp only [EndsBehind, hseparator]

/-- With a mark of the present directory in front, equality is no case of its own. -/
theorem pathsMatch_here_iff
    (h : IsBareOf bare configured)
    (runtime : String) :
    pathsMatch runtime ("./" ++ configured) = true ↔ EndsBehind runtime bare := by
  have hne : "./" ++ configured ≠ bare := by
    rintro rfl
    exact h.here.bare ⟨configured.toList, by rw [String.toList_append]; rfl⟩
  rw [pathsMatch_iff h.here]
  constructor
  · rintro (rfl | hends)
    · exact h.here.endsBehind hne
    · exact hends
  · exact Or.inr

/-- The current directory in front of a configured path takes from the paths that match just
the bare one. -/
theorem pathsMatch_here_iff_and
    (h : IsBareOf bare configured)
    (runtime : String) :
    pathsMatch runtime ("./" ++ configured) = true ↔
      pathsMatch runtime configured = true ∧ runtime ≠ bare := by
  rw [pathsMatch_here_iff h, pathsMatch_iff h]
  constructor
  · intro hends
    exact ⟨Or.inr hends, hends.ne⟩
  · rintro ⟨rfl | hends, hne⟩
    · exact h.endsBehind hne
    · exact hends

theorem isHit_here_iff
    {l : Location}
    (h : IsBareOf bare l.path)
    (event : TraceEvent) (file : String) (line : UInt32) (function : String) :
    { l with path := "./" ++ l.path }.isHit event file line function = true ↔
      l.isHit event file line function = true ∧ file ≠ bare := by
  have hpaths := pathsMatch_here_iff_and h file
  rw [Location.isHit, Location.isHit]
  cases l.target with
  | line number =>
      simp only [Bool.and_eq_true, hpaths, and_assoc]
  | method name =>
      simp only [Bool.and_eq_true, hpaths, and_assoc]

/-- When paths match, and how this differs from matching up to leading marks of the present
directory: only at a runtime path that is the bare form while the configured one is not. -/
theorem pathsMatch_iff_suffix
    (hbare : IsBareOf bare configured)
    (runtime : String) :
    (pathsMatch runtime configured = true ↔
        runtime = configured ∨ EndsBehind runtime bare) ∧
      ((pathsMatch runtime configured = true ↔
          runtime = configured ∨ runtime = bare ∨ EndsBehind runtime bare) ↔
        (runtime = bare → configured = bare)) ∧
      (pathsMatch runtime ("./" ++ configured) = pathsMatch runtime configured ↔
        ¬(runtime = configured ∧ configured = bare)) ∧
      ∀ (l : Location) (event : TraceEvent) (line : UInt32) (function : String),
        l.path = configured →
        ({ l with path := "./" ++ configured }.isHit event runtime line function = true ↔
          l.isHit event runtime line function = true ∧ runtime ≠ bare) := by
  have hmatch := pathsMatch_iff hbare runtime
  refine ⟨hmatch, ?_, ?_, ?_⟩
  · rw [hmatch]
    constructor
    · rintro hclaimed rfl
      rcases hclaimed.mpr (Or.inr (Or.inl rfl)) with heq | hends
      · exact heq.symm
      · exact absurd rfl hends.ne
    · intro hexact
      constructor
      · exact Or.imp_right Or.inr
      · rintro (heq | heq | hends)
        · exact Or.inl heq
        · exact Or.inl (heq.trans (hexact heq).symm)
        · exact Or.inr hends
  · rw [Bool.eq_iff_iff, pathsMatch_here_iff hbare, hmatch]
    constructor
    · rintro hsame ⟨rfl, rfl⟩
      exact (hsame.mpr (Or.inl rfl)).ne rfl
    · intro hother
      constructor
      · exact Or.inr
      · rintro (rfl | hends)
        · exact hbare.endsBehind fun heq => hother ⟨rfl, heq⟩
        · exact hends
  · rintro l event line function rfl
    exact isHit_here_iff hbare event runtime line function

end

/-- A path under another root matches, and one under a longer name does not. -/
theorem pathsMatch_iff_suffix_nested :
    IsBareOf "app/main.py" "././app/main.py" ∧
      pathsMatch "C:\\app/main.py" "././app/main.py" = true ∧
      pathsMatch "C:\\myapp/main.py" "././app/main.py" = false := by
  have hbare : IsBareOf "app/main.py" "././app/main.py" :=
    ⟨⟨2, by decide⟩, by decide⟩
  refine ⟨hbare, ?_, by decide⟩
  refine (pathsMatch_iff_suffix hbare "C:\\app/main.py").1.mpr (Or.inr ?_)
  exact ⟨['C', ':'], '\\', Or.inr rfl, by decide⟩

/-- The bare path itself is missed where the configured one has a mark. -/
theorem pathsMatch_misses_bare :
    IsBareOf "app.py" "./app.py" ∧
      pathsMatch "app.py" "./app.py" = false ∧
      pathsMatch "app.py" "app.py" = true ∧
      ¬ ∀ runtime configured bare, IsBareOf bare configured →
        (pathsMatch runtime configured = true ↔
          runtime = configured ∨ runtime = bare ∨ EndsBehind runtime bare) := by
  have hbare : IsBareOf "app.py" "./app.py" := ⟨⟨1, by decide⟩, by decide⟩
  have hmissed : pathsMatch "app.py" "./app.py" = false := by decide
  refine ⟨hbare, hmissed, by decide, fun hall => ?_⟩
  have hfound := (hall "app.py" "./app.py" "app.py" hbare).mpr (Or.inr (Or.inl rfl))
  rw [hmissed] at hfound
  cases hfound

end Path
end LiveProbe
