import LiveProbe.Proofs.Context.Delivery
import LiveProbe.Proofs.Context.Processing
import LiveProbe.Proofs.Expr.Caching
import LiveProbe.Proofs.Expr.Uniform

/-!
# Messages as they were written

A template that was put together from texts and expressions is read as just these.

**Specification.**  Texts and expressions are the pieces of a template
(`Template.Piece`). A template is encoded by doubling every brace of its texts and by
setting its expressions between braces; an expression has no closing brace and does not
begin with an opening one (`Piece.IsWritable`).

**Invariant.**  Along a message the heap only grows and the bindings stay
(`Firing.Follows`), so that a uniform evaluator answers at each expression as it did at the
beginning.

**Results.**
* `Template.segments_encode`: the segments of an encoded template are those of its pieces.
* `Acting.formatLog_encode`: its message has the texts unchanged, and in place of each
  expression the display of its value or the wording of its fault; where a snapshot is
  collected, each expression is attached once, in order.
* `Acting.formatLog_literal`: a text without expressions survives.
-/

namespace LiveProbe

/-! ### Encoding -/

namespace Template

/-- The parts that a template is written from. -/
inductive Piece
  | literal (text : String)
  | expression (source : String)
  deriving DecidableEq, Repr

/-- Braces of a text are doubled. -/
def double (c : Char) : List Char := if c = '\x7b' ∨ c = '\x7d' then [c, c] else [c]

namespace Piece

/-- A piece as it stands in a template. -/
def spelling : Piece → List Char
  | literal text => text.toList.flatMap double
  | expression source => '\x7b' :: source.toList ++ ['\x7d']

/-- An expression can be told from what stands around it. -/
def IsWritable : Piece → Prop
  | literal _ => True
  | expression source => '\x7d' ∉ source.toList ∧ source.toList.head? ≠ some '\x7b'

instance : (p : Piece) → Decidable p.IsWritable
  | literal _ => inferInstanceAs (Decidable True)
  | expression source =>
      inferInstanceAs (Decidable ('\x7d' ∉ source.toList ∧ source.toList.head? ≠ some '\x7b'))

/-- The segments that a piece is read as. -/
def segments : Piece → List Segment
  | literal text => text.toList.map .char
  | expression source => [.expression (Text.trim source)]

/-- The expression that is evaluated for a piece. -/
def source? : Piece → Option String
  | literal _ => none
  | expression source => some (Text.trim source)

end Piece

/-- The template that is written from pieces. -/
def encode (pieces : List Piece) : String := String.ofList (pieces.flatMap Piece.spelling)

/-- The expressions that are evaluated for pieces, in order. -/
def sources (pieces : List Piece) : List String := pieces.filterMap Piece.source?

/-- A doubled brace is one character of the text. -/
theorem scan_double
    (c : Char) (rest : List Char) :
    scan none (double c ++ rest) = .char c :: scan none rest := by
  rw [double]
  split
  · next hbrace =>
      rcases hbrace with rfl | rfl <;> simp [scan]
  · next hother =>
      rw [not_or] at hother
      rw [List.cons_append, List.nil_append, scan.eq_def]
      split <;> simp_all

theorem scan_literal
    (cs rest : List Char) :
    scan none (cs.flatMap double ++ rest) = cs.map .char ++ scan none rest := by
  induction cs with
  | nil => rfl
  | cons c cs ih =>
      rw [List.flatMap_cons, List.append_assoc, scan_double, ih]
      rfl

/-- A piece in its spelling is read back, whatever follows. -/
theorem scan_spelling
    {p : Piece}
    (hp : p.IsWritable)
    (rest : List Char) :
    scan none (p.spelling ++ rest) = p.segments ++ scan none rest := by
  cases p with
  | literal text => exact scan_literal text.toList rest
  | expression source =>
      rw [Piece.spelling, List.append_assoc]
      exact segments_expression source.toList rest hp.1 hp.2

/-- Writable pieces are read back from their text. -/
theorem segments_encode
    {pieces : List Piece}
    (hpieces : ∀ p ∈ pieces, p.IsWritable) :
    segments (encode pieces) = pieces.flatMap Piece.segments := by
  rw [segments, encode, String.toList_ofList]
  induction pieces with
  | nil => rfl
  | cons p pieces ih =>
      rw [List.forall_mem_cons] at hpieces
      rw [List.flatMap_cons, scan_spelling hpieces.1, ih hpieces.2, List.flatMap_cons]

end Template

/-! ### What a message shows -/

/-- What the answer of an evaluator shows in a message. -/
def Evaluation.text : Evaluation → String
  | .value r heap => heap.display r
  | .fault e => Acting.faultText e
  | .panic => ""

/-- The text of a segment by the answers of an evaluator. -/
def Segment.text (answer : String → Evaluation) : Segment → String
  | .char c => c.toString
  | .expression source => (answer source).text

/-- The expression that a segment evaluates. -/
def Segment.source? : Segment → Option String
  | .char _ => none
  | .expression source => some source

/-- The text of a piece by the answers of an evaluator. -/
def Template.Piece.text (answer : String → Evaluation) : Piece → String
  | literal text => text
  | expression source => (answer (Text.trim source)).text

/-- A watch is that of an expression in a message, and tells its fault if there is one. -/
structure WatchResult.IsOf (w : WatchResult) (asked : String) (answer : Evaluation) : Prop where
  expression : w.expression = asked
  source : w.source = .log
  fault : ∀ e, answer = .fault e → w.fault = some e.message

namespace Firing

/-- What the evaluator answers in a context. -/
def answer (c : Collaborators) (f : Firing) (source : String) : Evaluation :=
  c.evaluate source f.context.bindings f.agent.heap

/-- What an evaluation looks at stays, but for further cells. -/
structure Follows (f g : Firing) : Prop where
  heap : f.agent.heap.Extends g.agent.heap
  bindings : g.context.bindings = f.context.bindings

theorem Follows.refl
    (f : Firing) :
    f.Follows f := ⟨.refl _, rfl⟩

/-- Of a tracepoint that collects a snapshot, expressions are attached in their order; of
others none is. -/
def Attaches (tp : Tracepoint) (answer : String → Evaluation) (sources : List String)
    (f g : Firing) : Prop :=
  ∃ watches : List WatchResult,
    g.context.attached = f.context.attached ++ watches.map (fun w => (tp.id, w)) ∧
      if tp.collectsSnapshot then
        List.Forall₂ (fun w source => w.IsOf source (answer source)) watches sources
      else watches = []

namespace Attaches

variable {tp : Tracepoint} {answer : String → Evaluation} {f g h : Firing}

theorem nil
    (f : Firing) :
    f.Attaches tp answer [] f := by
  refine ⟨[], (List.append_nil _).symm, ?_⟩
  split
  · exact .nil
  · rfl

/-- Where no snapshot is collected, nothing is attached. -/
theorem of_silent
    {source : String}
    (hcollects : tp.collectsSnapshot = false)
    (hg : g.context.attached = f.context.attached) :
    f.Attaches tp answer [source] g := by
  refine ⟨[], by rw [hg]; exact (List.append_nil _).symm, ?_⟩
  rw [hcollects]
  rfl

/-- Where one is collected, the value or the fault of the expression is attached. -/
theorem of_watch
    {source : String} {w : WatchResult}
    (hcollects : tp.collectsSnapshot = true)
    (hw : w.IsOf source (answer source))
    (hg : g.context.attached = f.context.attached ++ [(tp.id, w)]) :
    f.Attaches tp answer [source] g := by
  refine ⟨[w], hg, ?_⟩
  rw [if_pos hcollects]
  exact .cons hw .nil

theorem append
    {sources others : List String}
    (hfg : f.Attaches tp answer sources g)
    (hgh : g.Attaches tp answer others h) :
    f.Attaches tp answer (sources ++ others) h := by
  obtain ⟨watches, hwatches, hsources⟩ := hfg
  obtain ⟨later, hlater, hothers⟩ := hgh
  refine ⟨watches ++ later, ?_, ?_⟩
  · rw [hlater, hwatches, List.map_append, List.append_assoc]
  · split at hsources
    · next hcollects =>
        rw [if_pos hcollects] at hothers ⊢
        exact List.rel_append hsources hothers
    · next hcollects =>
        rw [if_neg hcollects] at hothers ⊢
        rw [hsources, hothers, List.append_nil]

end Attaches

end Firing

/-! ### The language of expressions -/

/-- The language of expressions always answers. -/
theorem evaluateExpression_ne_panic
    (source : String) (b : Bindings) (h : Heap) :
    evaluateExpression source b h ≠ .panic := by
  rw [evaluateExpression]
  split <;> nofun

/-- A name stands for what the bindings have under it. -/
theorem evaluateExpression_name
    (name : String) (b : Bindings) (h : Heap)
    (hparse : Parser.parse name = .ok (.name name)) :
    evaluateExpression name b h =
      match b.get? name with
      | some r => .value r h
      | none => .fault (.unknownName name) := by
  have hanswer := ExprCache.evaluateExpression_eq ExprCache.isSound_empty ⟨name, b, h⟩
  rw [ExprCache.ask_fst ExprCache.isSound_empty, Query.afresh, hparse] at hanswer
  refine hanswer.trans ?_
  simp only [Eval.evaluate]
  rcases b.get? name with _ | r <;> rfl

namespace Acting

/-! ### Steps with an answer -/

/-- From one state the step comes to another and yields an answer. -/
def Yields {α : Type} (m : Acting α) (f : Firing) (a : α) (g : Firing) : Prop :=
  m.run.run f = (some a, g)

section Yields

variable {α β : Type} {f g h : Firing} {a : α} {b : β}

theorem yields_pure
    (a : α) (f : Firing) :
    Yields (pure a) f a f :=
  rfl

theorem yields_bind
    {m : Acting α} {k : α → Acting β}
    (hm : Yields m f a g)
    (hk : Yields (k a) g b h) :
    Yields (m >>= k) f b h := by
  rw [Yields] at hm
  rw [Yields, run_bind, hm]
  exact hk

theorem yields_get
    {k : Firing → Acting β}
    (hk : Yields (k f) f b g) :
    Yields (get >>= k) f b g :=
  hk

theorem yields_set
    {k : PUnit → Acting β}
    (hk : Yields (k ⟨⟩) g b h) :
    Yields (set g >>= k) f b h :=
  hk

theorem yields_modify
    {u : Firing → Firing} {k : PUnit → Acting β}
    (hk : Yields (k ⟨⟩) (u f) b g) :
    Yields (modify u >>= k) f b g :=
  hk

end Yields

/-- An expression with a value changes the heap only. -/
theorem yields_evaluate_value
    {c : Collaborators} {f : Firing} {source : String} {r : Ref} {heap : Heap}
    (h : f.answer c source = .value r heap) :
    Yields (evaluate c source) f (.ok r) { f with agent := { f.agent with heap := heap } } := by
  rw [Firing.answer] at h
  refine yields_get ?_
  rw [h]
  exact yields_set (yields_pure _ _)

theorem yields_evaluate_fault
    {c : Collaborators} {f : Firing} {source : String} {e : EvalError}
    (h : f.answer c source = .fault e) :
    Yields (evaluate c source) f (.error e) f := by
  rw [Firing.answer] at h
  refine yields_get ?_
  rw [h]
  exact yields_pure _ _

/-- Recording a value changes the capture only. -/
theorem yields_walkWatch
    (expression : String) (value : Ref) (source : WatchSource) (f : Firing) :
    ∃ w capture, Yields (walkWatch expression value source) f w
        { f with context := { f.context with capture := capture } } ∧
      w.expression = expression ∧ w.source = source := by
  rcases hwalk : walkOne f.agent.heap f.context.config.walkLimits expression value
    f.context.capture.table f.context.capture.budget with ⟨id, table, budget⟩
  cases id with
  | none =>
      refine ⟨.failed expression limitReached source, ⟨table, budget⟩, yields_get ?_, rfl, rfl⟩
      dsimp only
      rw [hwalk]
      exact yields_set (yields_pure _ _)
  | some id =>
      refine ⟨.good expression id source, ⟨table, budget⟩, yields_get ?_, rfl, rfl⟩
      dsimp only
      rw [hwalk]
      exact yields_set (yields_pure _ _)

/-! ### Segments -/

section Message

variable {c : Collaborators} {tp : Tracepoint} {f : Firing}

/-- The text of an expression is that of its value or of its fault, also after other expressions
were evaluated. -/
theorem yields_expression
    {source : String} {g : Firing}
    (hc : IsUniform c.evaluate)
    (hclosed : f.agent.heap.IsClosed)
    (hlive : Eval.Fixes f.agent.heap.Same f.context.bindings)
    (hcalm : f.answer c source ≠ .panic)
    (hfollows : f.Follows g) :
    ∃ g', Yields (segmentText c tp (.expression source)) g (f.answer c source).text g' ∧
      f.Follows g' ∧ g.Attaches tp (f.answer c) [source] g' := by
  have halike : Evaluation.Alike f.agent.heap.Same f.agent.heap g.agent.heap
      (f.answer c source) (g.answer c source) := by
    rw [Firing.answer, Firing.answer, hfollows.bindings]
    exact hc source ((Heap.Alike.refl hclosed).of_extends hfollows.heap) hlive
  generalize hfirst : f.answer c source = first at halike hcalm ⊢
  generalize hagain : g.answer c source = again at halike
  cases halike with
  | panic => exact absurd rfl hcalm
  | fault e =>
      have hanswer := yields_evaluate_fault hagain
      cases hcollects : tp.collectsSnapshot with
      | false =>
          refine ⟨g, yields_bind hanswer ?_, hfollows, .of_silent hcollects rfl⟩
          simp only [hcollects]
          exact yields_pure _ _
      | true =>
          have hw : (WatchResult.failed source e.message .log).IsOf source (f.answer c source) := by
            rw [hfirst]
            exact ⟨rfl, rfl, fun e' he => by cases he; rfl⟩
          refine ⟨g.attach tp.id (.failed source e.message .log), yields_bind hanswer ?_,
            ⟨hfollows.heap, hfollows.bindings⟩, .of_watch hcollects hw rfl⟩
          simp only [hcollects]
          exact yields_modify (yields_pure _ _)
  | @value S r r' heap heap' hgrown hpair =>
      have hanswer := yields_evaluate_value hagain
      have hdisplay : heap.display r = heap'.display r' := hgrown.alike.display_eq hpair
      have hheap : f.agent.heap.Extends heap' := hfollows.heap.trans hgrown.right
      let grown : Firing := { g with agent := { g.agent with heap := heap' } }
      rw [Evaluation.text, hdisplay]
      cases hcollects : tp.collectsSnapshot with
      | false =>
          refine ⟨grown, yields_bind hanswer (yields_get ?_), ⟨hheap, hfollows.bindings⟩,
            .of_silent hcollects rfl⟩
          simp only [hcollects]
          exact yields_pure _ _
      | true =>
          obtain ⟨w, capture, hwalk, hexpression, hsource⟩ :=
            yields_walkWatch source r' .log grown
          have hw : w.IsOf source (f.answer c source) := by
            rw [hfirst]
            exact ⟨hexpression, hsource, nofun⟩
          let walked : Firing := { grown with context := { g.context with capture := capture } }
          refine ⟨walked.attach tp.id w, yields_bind hanswer (yields_get ?_),
            ⟨hheap, hfollows.bindings⟩, .of_watch hcollects hw rfl⟩
          simp only [hcollects]
          exact yields_bind hwalk (yields_modify (yields_pure _ _))

/-- The texts of all segments are those that each would have alone. -/
theorem yields_segments
    {segments : List Segment} {g : Firing}
    (hc : IsUniform c.evaluate)
    (hclosed : f.agent.heap.IsClosed)
    (hlive : Eval.Fixes f.agent.heap.Same f.context.bindings)
    (hcalm : ∀ source ∈ segments.filterMap Segment.source?, f.answer c source ≠ .panic)
    (hfollows : f.Follows g)
    (tp : Tracepoint) :
    ∃ g', Yields (segments.mapM (segmentText c tp)) g
        (segments.map (Segment.text (f.answer c))) g' ∧
      g.Attaches tp (f.answer c) (segments.filterMap Segment.source?) g' := by
  induction segments generalizing g with
  | nil =>
      rw [List.mapM_nil]
      exact ⟨g, yields_pure _ _, .nil g⟩
  | cons segment segments ih =>
      have hsources : (segment :: segments).filterMap Segment.source? =
          segment.source?.toList ++ segments.filterMap Segment.source? := by
        cases segment <;> rfl
      rw [hsources, List.forall_mem_append] at hcalm
      have hhead : ∃ g', Yields (segmentText c tp segment) g (segment.text (f.answer c)) g' ∧
          f.Follows g' ∧ g.Attaches tp (f.answer c) segment.source?.toList g' := by
        cases segment with
        | char ch => exact ⟨g, yields_pure _ _, hfollows, .nil g⟩
        | expression source =>
            exact yields_expression hc hclosed hlive (hcalm.1 source List.mem_cons_self) hfollows
      obtain ⟨g₁, hfirst, hfollows₁, hattached⟩ := hhead
      obtain ⟨g₂, hlater, hattachedLater⟩ := ih hcalm.2 hfollows₁
      refine ⟨g₂, ?_, ?_⟩
      · rw [List.mapM_cons, List.map_cons]
        exact yields_bind hfirst (yields_bind hlater (yields_pure _ _))
      · rw [hsources]
        exact hattached.append hattachedLater

theorem join_map_toString
    (cs : List Char) :
    String.join (cs.map Char.toString) = String.ofList cs := by
  rw [← String.toList_inj, String.toList_join, String.toList_ofList, List.flatMap_map]
  simp

/-- The segments of the pieces spell the texts of the pieces. -/
theorem join_map_text
    (answer : String → Evaluation) (pieces : List Template.Piece) :
    String.join ((pieces.flatMap Template.Piece.segments).map (Segment.text answer)) =
      String.join (pieces.map (Template.Piece.text answer)) := by
  induction pieces with
  | nil => rfl
  | cons p pieces ih =>
      have hpiece : String.join (p.segments.map (Segment.text answer)) = p.text answer := by
        cases p with
        | literal text =>
            rw [Template.Piece.segments, List.map_map]
            exact (join_map_toString text.toList).trans String.ofList_toList
        | expression source => rfl
      rw [List.flatMap_cons, List.map_append, String.join_append, hpiece, ih, List.map_cons,
        String.join_cons]

/-- The expressions among the segments are those of the pieces. -/
theorem filterMap_source?_segments
    (pieces : List Template.Piece) :
    (pieces.flatMap Template.Piece.segments).filterMap Segment.source? =
      Template.sources pieces := by
  induction pieces with
  | nil => rfl
  | cons p pieces ih =>
      have hpiece : p.segments.filterMap Segment.source? = p.source?.toList := by
        cases p with
        | literal text =>
            rw [Template.Piece.segments, List.filterMap_map]
            exact List.filterMap_eq_nil_iff.mpr fun _ _ => rfl
        | expression source => rfl
      have hsources : Template.sources (p :: pieces) =
          p.source?.toList ++ Template.sources pieces := by
        cases p <;> rfl
      rw [List.flatMap_cons, List.filterMap_append, hpiece, ih, hsources]

/-- A text without expressions stays what it is, whatever the evaluator. -/
theorem formatLog_literal
    (c : Collaborators) (tp : Tracepoint) (text : String) (f : Firing) :
    Yields (formatLog c tp (Template.encode [.literal text])) f text f := by
  have hchars : ∀ cs : List Char,
      Yields ((cs.map Segment.char).mapM (segmentText c tp)) f (cs.map Char.toString) f := by
    intro cs
    induction cs with
    | nil =>
        rw [List.map_nil, List.mapM_nil]
        exact yields_pure _ _
    | cons ch cs ih =>
        rw [List.map_cons, List.mapM_cons]
        exact yields_bind (yields_pure _ _) (yields_bind ih (yields_pure _ _))
  have hwritable : ∀ p ∈ [Template.Piece.literal text], p.IsWritable :=
    List.forall_mem_singleton.mpr trivial
  have hsegments : Template.segments (Template.encode [.literal text]) =
      text.toList.map .char := by
    rw [Template.segments_encode hwritable, List.flatMap_singleton]
    rfl
  have htext : String.join (text.toList.map Char.toString) = text :=
    (join_map_toString text.toList).trans String.ofList_toList
  suffices hjoined : Yields (formatLog c tp (Template.encode [.literal text])) f
      (String.join (text.toList.map Char.toString)) f by
    rwa [htext] at hjoined
  rw [formatLog, hsegments]
  exact yields_bind (hchars text.toList) (yields_pure _ _)

/-- A message has the texts of its template unchanged, and in place of each expression what
the evaluator answered at the beginning. -/
theorem formatLog_encode
    {c : Collaborators} {f : Firing} {pieces : List Template.Piece}
    (hc : IsUniform c.evaluate)
    (hclosed : f.agent.heap.IsClosed)
    (hlive : ∀ p ∈ f.context.bindings.pairs, p.2 < f.agent.heap.size)
    (hpieces : ∀ p ∈ pieces, p.IsWritable)
    (hcalm : ∀ source ∈ Template.sources pieces, f.answer c source ≠ .panic)
    (tp : Tracepoint) :
    ∃ g, Yields (formatLog c tp (Template.encode pieces)) f
        (String.join (pieces.map (Template.Piece.text (f.answer c)))) g ∧
      f.Attaches tp (f.answer c) (Template.sources pieces) g := by
  have hsame : Eval.Fixes f.agent.heap.Same f.context.bindings := fun p hp => ⟨rfl, hlive p hp⟩
  rw [← filterMap_source?_segments] at hcalm ⊢
  obtain ⟨g, htexts, hattached⟩ := yields_segments hc hclosed hsame hcalm (.refl f) tp
  refine ⟨g, ?_, hattached⟩
  rw [formatLog, Template.segments_encode hpieces, ← join_map_text]
  exact yields_bind htexts (yields_pure _ _)

/-- A context in which a text is bound to a name. -/
def greeting : Firing where
  context :=
    { id := 0
      ts := 0
      event := .line
      frame := ⟨⟨"a.py", "greet", 3, 1, some [("name", 0)], none, false, none⟩, []⟩
      bindings := ⟨[("name", 0)]⟩
      config := .standard
      capture := ⟨.empty, .unlimited⟩
      frames := none
      results := []
      attached := []
      state := .processing }
  agent := .initial ⟨#[.str "\x7dé\x7b"]⟩ (.ofSize 1 1)

/-- Braces on both sides of expressions, of which the second has no value. -/
def greetingPieces : List Template.Piece :=
  [.literal "\x7ba\x7d", .expression " name ", .literal "\x7d", .expression "nope"]

theorem formatLog_encode_greeting :
    let c := { Firing.plainCollaborators with evaluate := evaluateExpression }
    let tp : Tracepoint := ⟨"tp", "a.py", 3, .empty, [], []⟩
    Template.encode greetingPieces =
        "\x7b\x7ba\x7d\x7d\x7b name \x7d\x7d\x7d\x7bnope\x7d" ∧
      ∃ g, Yields (formatLog c tp (Template.encode greetingPieces)) greeting
          "\x7ba\x7d\x7dé\x7b\x7d<error: name 'nope' is not defined>" g ∧
        g.context.attached.map (fun w => (w.1, w.2.expression)) =
          [("tp", "name"), ("tp", "nope")] := by
  intro c tp
  have hclosed : greeting.agent.heap.IsClosed := by
    rw [Heap.IsClosed]
    decide
  have hwritable : ∀ p ∈ greetingPieces, p.IsWritable := by
    decide
  obtain ⟨g, hmessage, watches, hattached, hwatches⟩ :=
    formatLog_encode (c := c) evaluateExpression_isUniform hclosed (by decide) hwritable
      (fun source _ => evaluateExpression_ne_panic source _ _) tp
  have htext : String.join (greetingPieces.map (Template.Piece.text (greeting.answer c))) =
      "\x7ba\x7d\x7dé\x7b\x7d<error: name 'nope' is not defined>" := by
    have hname : greeting.answer c "name" = .value 0 greeting.agent.heap :=
      evaluateExpression_name "name" _ _ (by cbv)
    have hnope : greeting.answer c "nope" = .fault (.unknownName "nope") :=
      evaluateExpression_name "nope" _ _ (by cbv)
    have htrim : Text.trim " name " = "name" ∧ Text.trim "nope" = "nope" := by
      decide +kernel
    simp only [greetingPieces, List.map_cons, List.map_nil, Template.Piece.text, htrim.1, htrim.2,
      hname, hnope]
    decide +kernel
  have hsources : Template.sources greetingPieces = ["name", "nope"] := rfl
  have hcollects : tp.collectsSnapshot = true := rfl
  rw [htext] at hmessage
  rw [hsources, if_pos hcollects] at hwatches
  obtain _ | ⟨hname, _ | ⟨hnope, _ | _⟩⟩ := hwatches
  refine ⟨by decide +kernel, g, hmessage, ?_⟩
  rw [hattached]
  simp only [greeting, List.nil_append, List.map_cons, List.map_nil, hname.expression,
    hnope.expression]
  rfl

end Message

end Acting
end LiveProbe
