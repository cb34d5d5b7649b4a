import LiveProbe.Text.Blank

/-!
# Templates of messages

Messages with expressions in braces.

**Format.** An opening brace begins an expression, which the next closing brace
ends. A doubled brace of either kind stands for one brace. An opening brace that
nothing closes, and a single closing brace, stand for themselves.

**Results.**
* `segments_expression`: the text between two braces is read as an expression.
-/

namespace LiveProbe

/-- A part of a message. -/
inductive Segment
  | char (c : Char)
  | expression (source : String)
  deriving DecidableEq, Repr

namespace Template

/-- The segments of a template; within an expression, what of it was read so far,
last character first. -/
def scan : Option (List Char) → List Char → List Segment
  | none, [] => []
  | none, '\x7d' :: '\x7d' :: cs => .char '\x7d' :: scan none cs
  | none, '\x7b' :: '\x7b' :: cs => .char '\x7b' :: scan none cs
  | none, '\x7b' :: cs => scan (some []) cs
  | none, c :: cs => .char c :: scan none cs
  | some read, [] => .char '\x7b' :: read.reverse.map .char
  | some read, '\x7d' :: cs =>
    .expression (String.ofList (Text.trimChars read.reverse)) :: scan none cs
  | some read, c :: cs => scan (some (c :: read)) cs

/-- The segments of a template. -/
def segments (template : String) : List Segment := scan none template.toList

theorem scan_expression (read source rest : List Char) (h : '\x7d' ∉ source) :
    scan (some read) (source ++ '\x7d' :: rest) =
      .expression (String.ofList (Text.trimChars (read.reverse ++ source))) :: scan none rest := by
  induction source generalizing read with
  | nil => simp [scan]
  | cons c cs ih =>
    simp only [List.mem_cons, not_or] at h
    have hc : c ≠ '\x7d' := fun e => h.1 e.symm
    have step : scan (some read) (c :: (cs ++ '\x7d' :: rest)) =
        scan (some (c :: read)) (cs ++ '\x7d' :: rest) := by
      conv => lhs; unfold scan
      split <;> simp_all
    rw [List.cons_append, step, ih (c :: read) h.2]
    simp

theorem segments_expression (source rest : List Char) (hclose : '\x7d' ∉ source)
    (hopen : source.head? ≠ some '\x7b') :
    scan none ('\x7b' :: source ++ '\x7d' :: rest) =
      .expression (String.ofList (Text.trimChars source)) :: scan none rest := by
  have step : scan none ('\x7b' :: source ++ '\x7d' :: rest) =
      scan (some []) (source ++ '\x7d' :: rest) := by
    cases source with
    | nil => simp [scan]
    | cons c cs =>
      have hc : c ≠ '\x7b' := fun e => hopen (by simp [e])
      conv => lhs; unfold scan
      split <;> grind
  rw [step, scan_expression [] source rest hclose]
  simp

end Template
end LiveProbe
