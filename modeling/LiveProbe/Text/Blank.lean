/-!
# Blank characters

The characters with the Unicode property `White_Space`, and removal of the
blanks around a text.

**Results.**
* `isBlank_of_isWhitespace`: every ASCII blank that core knows is a blank here.
* `trimLeft_eq_nil_iff`: only a text of blanks trims to nothing.
-/

namespace LiveProbe
namespace Text

/-- Characters with the property `White_Space` of Unicode 15. -/
def isBlank (c : Char) : Bool :=
  let n := c.toNat
  (9 ≤ n && n ≤ 13) || n == 0x20 || n == 0x85 || n == 0xA0 || n == 0x1680 ||
    (0x2000 ≤ n && n ≤ 0x200A) || n == 0x2028 || n == 0x2029 || n == 0x202F ||
    n == 0x205F || n == 0x3000

theorem isBlank_of_isWhitespace (c : Char) (h : c.isWhitespace = true) :
    isBlank c = true := by
  simp only [Char.isWhitespace, Bool.or_eq_true, decide_eq_true_eq] at h
  rcases h with ((rfl | rfl) | rfl) | rfl <;> decide

/-- The characters from the first non-blank on. -/
def trimLeft (cs : List Char) : List Char := cs.dropWhile isBlank

/-- The characters without the blanks at both ends. -/
def trimChars (cs : List Char) : List Char :=
  (trimLeft (trimLeft cs).reverse).reverse

/-- A text without the blanks at both ends. -/
def trim (s : String) : String := String.ofList (trimChars s.toList)

theorem trimLeft_eq_nil_iff (cs : List Char) :
    trimLeft cs = [] ↔ ∀ c ∈ cs, isBlank c = true := by
  induction cs with
  | nil => exact ⟨fun _ c hc => (nomatch hc), fun _ => rfl⟩
  | cons c cs ih =>
    by_cases h : isBlank c = true
    · rw [trimLeft, List.dropWhile_cons_of_pos h, List.forall_mem_cons]
      exact ⟨fun e => ⟨h, ih.1 e⟩, fun e => ih.2 e.2⟩
    · rw [trimLeft, List.dropWhile_cons_of_neg h, List.forall_mem_cons]
      exact ⟨fun e => (nomatch e), fun e => absurd e.1 h⟩

/-- A text is blank when nothing is left after trimming. -/
def isBlankText (s : String) : Bool := s.toList.all isBlank

end Text
end LiveProbe
