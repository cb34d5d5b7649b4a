import LiveProbe.Frame.Stack

/-!
# The root of the application

What is shown of the paths under the root of the application and beside it.

**Specification.**  A path is under the root if it is the root or goes on behind it at a
slash (`InApp.IsUnder`).  It is beside the root if it goes on behind it in the middle of a
name, as that of a sibling directory does (`InApp.IsBeside`).  What directory boundaries
ask of the shortened path and of the mark of an application frame is
`InApp.RespectsBoundary`.

**Texts and directories.**  The rules compare the beginnings of texts.  Every path that
begins with the root is under it or beside it, and the two kinds are treated alike: that
is wrong for all paths beside the root and for no others.

**Results.**
* `Stack.shown_of_mem_collect`: the frames of a stack are shown by the rules for their files.
* `InApp.respectsBoundary_iff`: boundaries are respected for all paths but those beside
  the root, on their own and along a collected stack; what is shown of either kind.
* `InApp.sibling_taken_for_inside`: a sibling directory counts as the application.
-/

namespace LiveProbe
namespace InApp

/-- The path is the root or goes on behind it at a slash. -/
def IsUnder (root path : String) : Prop :=
  path = root ∨ ∃ rest : String, path = root ++ rest ∧
    (root.toList.getLast? = some '/' ∨ rest.toList.head? = some '/')

/-- The path goes on behind the root in the middle of a name. -/
def IsBeside (root path : String) : Prop :=
  ∃ c rest, path.toList = root.toList ++ c :: rest ∧ c ≠ '/' ∧ root.toList.getLast? ≠ some '/'

/-- What the boundaries of directories ask of the short form of a path and of the mark of an
application frame. -/
structure RespectsBoundary (rules : InApp) (root path short : String) (app : Bool) : Prop where
  unchanged : ¬ IsUnder root path → short = path
  foreign : ¬ IsUnder root path → (∀ lead ∈ rules.included, ¬ lead.toList <+: path.toList) →
    app = false
  shortened : short ≠ path →
    path = root ∧ short = "" ∨
      ∃ n, path = root ++ String.ofList (List.replicate n '/') ++ short ∧
        (root.toList.getLast? = some '/' ∨ 1 ≤ n)

/-! ### The rules for one path -/

theorem beginsWith_iff
    {lead path : String} :
    beginsWith lead path = true ↔ lead.toList <+: path.toList := by
  rw [beginsWith, List.isPrefixOf_iff_prefix]

/-- All slashes in front are cut off at once. -/
theorem exists_slashes
    (cs : List Char) :
    (∃ n, cs = List.replicate n '/' ++ cs.dropWhile (· == '/')) ∧
      (cs.dropWhile (· == '/')).head? ≠ some '/' := by
  constructor
  · have hall : ∀ c ∈ cs.takeWhile (· == '/'), c = '/' := by
      intro c hc
      have hslash := List.all_eq_true.1 List.all_takeWhile c hc
      exact beq_iff_eq.1 hslash
    refine ⟨(cs.takeWhile (· == '/')).length, ?_⟩
    rw [← List.eq_replicate_of_mem hall, List.takeWhile_append_dropWhile]
  · intro hslash
    have hhead := List.head?_dropWhile_not (· == '/') cs
    rw [hslash] at hhead
    exact absurd hhead (by decide)

section

variable {rules : InApp} {root path : String}

/-- A frame is of the application unless excluded, where an inclusion or the root leads its path. -/
theorem isAppFrame_iff
    (hroot : rules.appRoot = some root) :
    rules.isAppFrame path = true ↔
      (∀ lead ∈ rules.excluded, ¬ lead.toList <+: path.toList) ∧
        ((∃ lead ∈ rules.included, lead.toList <+: path.toList) ∨
          root.toList <+: path.toList) := by
  have hany : ∀ leads : List String,
      leads.any (beginsWith · path) = true ↔ ∃ lead ∈ leads, lead.toList <+: path.toList := by
    intro leads
    simp only [List.any_eq_true, beginsWith_iff]
  rw [isAppFrame, hroot]
  by_cases hexcluded : ∃ lead ∈ rules.excluded, lead.toList <+: path.toList
  · rw [if_pos ((hany _).2 hexcluded)]
    obtain ⟨lead, hlead, hbegins⟩ := hexcluded
    constructor
    · nofun
    · rintro ⟨hnone, -⟩
      exact absurd hbegins (hnone lead hlead)
  · have hnone : ∀ lead ∈ rules.excluded, ¬ lead.toList <+: path.toList :=
      fun lead hlead hbegins => hexcluded ⟨lead, hlead, hbegins⟩
    rw [if_neg (mt (hany _).1 hexcluded)]
    by_cases hincluded : ∃ lead ∈ rules.included, lead.toList <+: path.toList
    · rw [if_pos ((hany _).2 hincluded)]
      exact ⟨fun _ => ⟨hnone, Or.inl hincluded⟩, fun _ => rfl⟩
    · rw [if_neg (mt (hany _).1 hincluded)]
      dsimp only
      rw [beginsWith_iff]
      exact ⟨fun hbegins => ⟨hnone, Or.inr hbegins⟩, fun h => h.2.resolve_left hincluded⟩

/-- The short path is what stands behind the root, without its leading separators. -/
theorem shortPath_of_append
    {rest : List Char}
    (hroot : rules.appRoot = some root)
    (hpath : path.toList = root.toList ++ rest) :
    rules.shortPath path = String.ofList (rest.dropWhile (· == '/')) := by
  have hbegins : beginsWith root path = true := beginsWith_iff.2 ⟨rest, hpath.symm⟩
  rw [shortPath, hroot]
  dsimp only
  rw [if_pos hbegins, hpath, List.drop_left]

/-- A path that the root does not lead is left as it is. -/
theorem shortPath_eq_self
    (hroot : rules.appRoot = some root)
    (hpath : ¬ root.toList <+: path.toList) :
    rules.shortPath path = path := by
  rw [shortPath, hroot]
  dsimp only
  rw [if_neg (mt beginsWith_iff.1 hpath)]

/-- Of a path that begins with a root something is left out. -/
theorem shortPath_ne
    {rest : List Char}
    (hroot : rules.appRoot = some root)
    (hne : root ≠ "")
    (hpath : path.toList = root.toList ++ rest) :
    rules.shortPath path ≠ path := by
  intro hsame
  have hshort := congrArg (fun s : String => s.toList.length) hsame
  rw [shortPath_of_append hroot hpath] at hshort
  simp only [String.toList_ofList, hpath, List.length_append] at hshort
  have hlength := (List.dropWhile_sublist (· == '/') (l := rest)).length_le
  have hpos : 0 < root.toList.length :=
    List.length_pos_iff.2 fun hnil => hne (String.toList_injective hnil)
  omega

/-! ### Under and beside -/

theorem IsUnder.isPrefix
    (h : IsUnder root path) :
    root.toList <+: path.toList := by
  rcases h with rfl | ⟨rest, rfl, -⟩
  · exact List.prefix_rfl
  · rw [String.toList_append]
    exact List.prefix_append _ _

theorem IsBeside.not_isUnder
    (h : IsBeside root path) :
    ¬ IsUnder root path := by
  obtain ⟨c, rest, hpath, hc, hend⟩ := h
  rintro (rfl | ⟨behind, rfl, hslash | hslash⟩)
  · have hlength := congrArg List.length hpath
    rw [List.length_append, List.length_cons] at hlength
    omega
  · exact hend hslash
  · rw [String.toList_append, List.append_cancel_left_eq] at hpath
    rw [hpath, List.head?_cons, Option.some.injEq] at hslash
    exact hc hslash

/-- A path that the root leads is under it, or beside it under a name that goes on. -/
theorem isUnder_or_isBeside
    (h : root.toList <+: path.toList) :
    IsUnder root path ∨ IsBeside root path := by
  obtain ⟨rest, hpath⟩ := h
  by_cases hend : root.toList.getLast? = some '/'
  · refine Or.inl (Or.inr ⟨String.ofList rest, ?_, Or.inl hend⟩)
    rw [← String.toList_inj, String.toList_append, String.toList_ofList, hpath]
  · cases rest with
    | nil =>
        rw [List.append_nil] at hpath
        exact Or.inl (Or.inl (String.toList_injective hpath.symm))
    | cons c rest =>
        by_cases hc : c = '/'
        · refine Or.inl (Or.inr ⟨String.ofList (c :: rest), ?_, Or.inr ?_⟩)
          · rw [← String.toList_inj, String.toList_append, String.toList_ofList, hpath]
          · rw [String.toList_ofList, hc, List.head?_cons]
        · exact Or.inr ⟨c, rest, hpath.symm, hc, hend⟩

/-- A path under the root is the root, all slashes behind it, and its short form. -/
theorem IsUnder.exists_shortPath
    (h : IsUnder root path)
    (hroot : rules.appRoot = some root) :
    ∃ n, path = root ++ String.ofList (List.replicate n '/') ++ rules.shortPath path ∧
      (rules.shortPath path).toList.head? ≠ some '/' ∧
      (path = root ∧ rules.shortPath path = "" ∨
        root.toList.getLast? = some '/' ∨ 1 ≤ n) := by
  obtain ⟨rest, hpath⟩ := h.isPrefix
  have hshort := shortPath_of_append hroot hpath.symm
  obtain ⟨⟨n, hn⟩, hhead⟩ := exists_slashes rest
  refine ⟨n, ?_, ?_, ?_⟩
  · rw [← String.toList_inj, hshort, ← hpath, String.toList_append, String.toList_append,
      String.toList_ofList, String.toList_ofList, List.append_assoc, ← hn]
  · rw [hshort, String.toList_ofList]
    exact hhead
  · rcases h with rfl | ⟨behind, rfl, hslash | hslash⟩
    · have hnil : rest = [] := List.append_right_eq_self.1 hpath
      refine Or.inl ⟨rfl, ?_⟩
      rw [hshort, hnil]
      rfl
    · exact Or.inr (Or.inl hslash)
    · rw [String.toList_append, List.append_cancel_left_eq] at hpath
      cases n with
      | zero =>
          rw [List.replicate_zero, List.nil_append] at hn
          rw [← hn, hpath] at hhead
          exact absurd hslash hhead
      | succ n => exact Or.inr (Or.inr (Nat.le_add_left 1 n))

/-- Beside the root the short path is the rest of the name that goes on. -/
theorem IsBeside.eq_append_shortPath
    (h : IsBeside root path)
    (hroot : rules.appRoot = some root) :
    path = root ++ rules.shortPath path := by
  obtain ⟨c, rest, hpath, hc, -⟩ := h
  rw [← String.toList_inj, shortPath_of_append hroot hpath, String.toList_append,
    String.toList_ofList, List.dropWhile_cons_of_neg (by simpa using hc), hpath]

/-- The boundary of the root is respected exactly where the path does not stand beside it. -/
theorem respects_iff
    (hroot : rules.appRoot = some root)
    (hne : root ≠ "")
    (path : String) :
    RespectsBoundary rules root path (rules.shortPath path) (rules.isAppFrame path) ↔
      ¬ IsBeside root path := by
  constructor
  · intro hrespects hbeside
    have hsame := hrespects.unchanged hbeside.not_isUnder
    obtain ⟨c, rest, hpath, -⟩ := hbeside
    exact shortPath_ne hroot hne hpath hsame
  · intro hnot
    have hcases : ¬ IsUnder root path → ¬ root.toList <+: path.toList := by
      intro hunder hprefix
      exact (isUnder_or_isBeside hprefix).elim hunder hnot
    refine ⟨fun hunder => ?_, fun hunder hforeign => ?_, fun hshort => ?_⟩
    · exact shortPath_eq_self hroot (hcases hunder)
    · rw [Bool.eq_false_iff, Ne, isAppFrame_iff hroot]
      rintro ⟨-, ⟨lead, hlead, hbegins⟩ | hbegins⟩
      · exact hforeign lead hlead hbegins
      · exact hcases hunder hbegins
    · by_cases hunder : IsUnder root path
      · obtain ⟨n, hpath, -, hroot | hslash⟩ := hunder.exists_shortPath hroot
        · exact Or.inl hroot
        · exact Or.inr ⟨n, hpath, hslash⟩
      · exact absurd (shortPath_eq_self hroot (hcases hunder)) hshort

end
end InApp

/-! ### The frames of a stack -/

namespace Stack

variable {h : Heap} {config : CaptureConfig} {rules : InApp} {depth : Nat} {stack : List Activation}
  {s : CaptureState} {frame : StackFrame} {frames : List StackFrame}

theorem exists_record_of_processFrame
    {a : Activation}
    (hframe : (processFrame h config rules depth a s).1 = some frame) :
    ∃ locals walked, frame = record h rules a locals walked := by
  cases ha : a.locals with
  | none =>
      rw [processFrame_of_none ha] at hframe
      cases hframe
  | some locals =>
      rcases hexpand : mayExpand config depth s.budget with ⟨_ | _, budget⟩
      · rw [processFrame_of_bare ha hexpand] at hframe
        exact ⟨locals, [], (Option.some.inj hframe).symm⟩
      · rw [processFrame_of_walked ha hexpand rfl] at hframe
        exact ⟨locals, _, (Option.some.inj hframe).symm⟩

theorem exists_record_of_mem_processAll
    (hframes : (processAll h config rules depth stack s).1 = some frames)
    (hframe : frame ∈ frames) :
    ∃ a ∈ stack, ∃ locals walked, frame = record h rules a locals walked := by
  induction stack generalizing depth s frames with
  | nil =>
      rw [processAll] at hframes
      cases hframes
      cases hframe
  | cons a rest ih =>
      rcases hfirst : processFrame h config rules depth a s with ⟨_ | first, next⟩
      · rw [processAll_of_none (congrArg Prod.fst hfirst)] at hframes
        cases hframes
      · rw [processAll_of_some hfirst] at hframes
        obtain ⟨behind, hbehind, rfl⟩ := Option.map_eq_some_iff.1 hframes
        rcases List.mem_cons.1 hframe with rfl | hframe
        · exact ⟨a, List.mem_cons_self,
            exists_record_of_processFrame (congrArg Prod.fst hfirst)⟩
        · obtain ⟨b, hb, hrecord⟩ := ih hbehind hframe
          exact ⟨b, List.mem_cons_of_mem a hb, hrecord⟩

/-- Collected frames show the short path and the mark that the rules give to their file. -/
theorem shown_of_mem_collect
    {f : HostFrame}
    (hframes : (collect h config rules f s).1 = some frames)
    (hframe : frame ∈ frames) :
    frame.shortPath = rules.shortPath frame.fileName ∧
      frame.appFrame = rules.isAppFrame frame.fileName := by
  obtain ⟨a, -, locals, walked, rfl⟩ := exists_record_of_mem_processAll hframes hframe
  exact ⟨rfl, rfl⟩

end Stack

namespace InApp

/-- For every path, and for every frame of a collection, the boundary of the root is respected
exactly where the path does not stand beside the root under a longer name. Under the root the
short path is the rest behind separators; beside it, the rest of the longer name. -/
theorem respectsBoundary_iff
    {rules : InApp} {root : String}
    (hroot : rules.appRoot = some root)
    (hne : root ≠ "") :
    (∀ path,
      (RespectsBoundary rules root path (rules.shortPath path) (rules.isAppFrame path) ↔
        ¬ IsBeside root path) ∧
      (IsUnder root path →
        (∃ n, path = root ++ String.ofList (List.replicate n '/') ++ rules.shortPath path) ∧
          (rules.shortPath path).toList.head? ≠ some '/') ∧
      (IsBeside root path → path = root ++ rules.shortPath path) ∧
      (IsUnder root path ∨ IsBeside root path →
        (rules.isAppFrame path = true ↔
          ∀ lead ∈ rules.excluded, ¬ lead.toList <+: path.toList))) ∧
    ∀ (h : Heap) (config : CaptureConfig) (f : HostFrame) (s : CaptureState) (frames),
      (Stack.collect h config rules f s).1 = some frames → ∀ frame ∈ frames,
        (RespectsBoundary rules root frame.fileName frame.shortPath frame.appFrame ↔
          ¬ IsBeside root frame.fileName) := by
  constructor
  · intro path
    refine ⟨respects_iff hroot hne path, fun hunder => ?_, fun hbeside => ?_, fun hinside => ?_⟩
    · obtain ⟨n, hpath, hhead, -⟩ := hunder.exists_shortPath hroot
      exact ⟨⟨n, hpath⟩, hhead⟩
    · exact hbeside.eq_append_shortPath hroot
    · have hprefix : root.toList <+: path.toList := by
        rcases hinside with hunder | ⟨c, rest, hpath, -⟩
        · exact hunder.isPrefix
        · exact ⟨c :: rest, hpath.symm⟩
      rw [isAppFrame_iff hroot]
      exact ⟨And.left, fun hexcluded => ⟨hexcluded, Or.inr hprefix⟩⟩
  · intro h config f s frames hframes frame hframe
    obtain ⟨hshort, happ⟩ := Stack.shown_of_mem_collect hframes hframe
    rw [hshort, happ]
    exact respects_iff hroot hne frame.fileName

/-- Rules with a root only. -/
def rooted : InApp := ⟨[], [], some "/srv/app"⟩

/-- A path with a repeated separator, and one beside the root. -/
theorem respectsBoundary_iff_repeated :
    rooted.shortPath "/srv/app//api/a.py" = "api/a.py" ∧
      RespectsBoundary rooted "/srv/app" "/srv/app//api/a.py" "api/a.py" true ∧
      ¬ RespectsBoundary rooted "/srv/app" "/srv/app2/a.py"
        (rooted.shortPath "/srv/app2/a.py") (rooted.isAppFrame "/srv/app2/a.py") := by
  have hroot : rooted.appRoot = some "/srv/app" := rfl
  have hpaths := (respectsBoundary_iff hroot (by decide)).1
  have hshort : rooted.shortPath "/srv/app//api/a.py" = "api/a.py" := by decide
  have happ : rooted.isAppFrame "/srv/app//api/a.py" = true := by decide
  refine ⟨hshort, ?_, fun hrespects => ?_⟩
  · have hunder : IsUnder "/srv/app" "/srv/app//api/a.py" :=
      Or.inr ⟨"//api/a.py", by decide, Or.inr (by decide)⟩
    have hrespects := (hpaths "/srv/app//api/a.py").1.2 fun hbeside => hbeside.not_isUnder hunder
    rw [hshort, happ] at hrespects
    exact hrespects
  · exact (hpaths "/srv/app2/a.py").1.1 hrespects
      ⟨'2', "/a.py".toList, by decide, by decide, by decide⟩

/-- A directory whose name goes on from that of the root is taken for inside. -/
theorem sibling_taken_for_inside :
    ¬ IsUnder "/srv/app" "/srv/app2/a.py" ∧
      rooted.isAppFrame "/srv/app2/a.py" = true ∧
      rooted.shortPath "/srv/app2/a.py" = "2/a.py" ∧
      ¬ ∀ (rules : InApp) (root path : String), rules.appRoot = some root → root ≠ "" →
        RespectsBoundary rules root path (rules.shortPath path) (rules.isAppFrame path) := by
  have hbeside : IsBeside "/srv/app" "/srv/app2/a.py" :=
    ⟨'2', "/a.py".toList, by decide, by decide, by decide⟩
  have hshort : rooted.shortPath "/srv/app2/a.py" = "2/a.py" := by decide
  refine ⟨hbeside.not_isUnder, by decide, hshort, fun hall => ?_⟩
  have hrespects := hall rooted "/srv/app" "/srv/app2/a.py" rfl (by decide)
  have hsame := hrespects.unchanged hbeside.not_isUnder
  rw [hshort] at hsame
  exact absurd hsame (by decide)

end InApp
end LiveProbe
