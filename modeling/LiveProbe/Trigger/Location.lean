/-!
# Locations

Events of the observed program and the places at which triggers wait for them.

**Results.**
* `pathsMatch_self`: every path matches itself.
* `endsBehindSeparator_iff`: what stands in front of the end of a path.
-/

namespace LiveProbe

/-- Events of the observed program. -/
inductive TraceEvent
  | call | line | ret | exception
  deriving DecidableEq, Repr

/-- The frame is being left. -/
def TraceEvent.isExit : TraceEvent → Bool
  | .ret | .exception => true
  | _ => false

/-- Points within a line or method. A capture is matched like a start. -/
inductive Position
  | start | finish | capture
  deriving DecidableEq, Repr

/-- A line or a method of a file. -/
inductive Target
  | line (number : UInt32)
  | method (name : String)
  deriving DecidableEq, Repr

/-- A place in the observed program. -/
structure Location where
  path : String
  target : Target
  position : Position
  deriving DecidableEq, Repr

namespace Path

/-- The characters that separate the components of a path. -/
def isSeparator (c : Char) : Bool := c == '/' || c == '\\'

/-- The characters behind the last separator. -/
def baseChars (cs : List Char) : List Char :=
  (cs.reverse.takeWhile fun c => !isSeparator c).reverse

/-- The last component of a path. -/
def baseName (path : String) : String := String.ofList (baseChars path.toList)

/-- The path without the current directory at its front, however often it stands
there. -/
def dropHere : List Char → List Char
  | '.' :: '/' :: cs => dropHere cs
  | cs => cs

/-- The second path is the end of the first, behind a separator. -/
def endsBehindSeparator (runtime configured : List Char) : Bool :=
  match runtime.reverse.drop configured.length with
  | c :: _ => isSeparator c && configured.isSuffixOf runtime
  | [] => false

/-- A path at run time matches a configured one that is the same or its end. -/
def pathsMatch (runtime configured : String) : Bool :=
  runtime == configured || endsBehindSeparator runtime.toList (dropHere configured.toList)

theorem pathsMatch_self (path : String) : pathsMatch path path = true := by
  simp [pathsMatch]

theorem endsBehindSeparator_iff {runtime configured : List Char} :
    endsBehindSeparator runtime configured = true ↔
      ∃ lead c, isSeparator c = true ∧ runtime = lead ++ c :: configured := by
  constructor
  · intro h
    rw [endsBehindSeparator] at h
    split at h
    · next c cs hdrop =>
      rw [Bool.and_eq_true, List.isSuffixOf_iff_suffix] at h
      obtain ⟨hc, before, rfl⟩ := h
      rw [List.reverse_append, ← List.length_reverse, List.drop_left] at hdrop
      have hbefore : before = cs.reverse ++ [c] := by
        rw [← List.reverse_reverse before, hdrop, List.reverse_cons]
      exact ⟨cs.reverse, c, hc, by rw [hbefore, List.append_assoc]; rfl⟩
    · cases h
  · rintro ⟨lead, c, hc, rfl⟩
    have hsuffix : (configured.isSuffixOf (lead ++ c :: configured)) = true :=
      List.isSuffixOf_iff_suffix.2 ⟨lead ++ [c], by simp⟩
    simp [endsBehindSeparator, hc, hsuffix]

end Path

namespace Location

/-- The same place, whatever the position in it. -/
def samePlace (a b : Location) : Bool := a.path == b.path && a.target == b.target

/-- The file by which triggers are found. -/
def fileName (l : Location) : String := Path.baseName l.path

/-- The event of a method that its position waits for. -/
def Position.awaits (p : Position) (event : TraceEvent) : Bool :=
  match p with
  | .start | .capture => event == .call
  | .finish => event.isExit

/-- An event at a line and in a function of a file hits the location. -/
def isHit (l : Location) (event : TraceEvent) (file : String) (line : UInt32)
    (function : String) : Bool :=
  match l.target with
  | .line number => event == .line && number == line && Path.pathsMatch file l.path
  | .method name =>
    Position.awaits l.position event && name == function && Path.pathsMatch file l.path

end Location
end LiveProbe
