import LiveProbe.Hash.Sip
import LiveProbe.Json.Quoted
import LiveProbe.Text.Numeral

/-!
# Written numbers

The digits of natural numbers, and the numbers that are read from them.

**Results.**
* `numeralValue_toDigits`: a decimal numeral has the value that it was written for.
* `readInt_toDigits`: it is read as that number if the bounds allow it.
* `toDigits_leading`: only the numeral of zero begins with a zero.
* `hex64_injective`: different words have different rows of sixteen hexadecimal digits.
-/

namespace LiveProbe

namespace Text

/-! ### Decimal digits -/

theorem isDigit_of_mem_toDigits
    {n : Nat} {c : Char}
    (h : c ∈ Nat.toDigits 10 n) :
    isDigit c = true := by
  have hdigit : c.isDigit = true := Nat.isDigit_of_mem_toDigits (by decide) (by decide) h
  rw [Char.isDigit, Bool.and_eq_true, decide_eq_true_iff, decide_eq_true_iff] at hdigit
  rw [isDigit, Bool.and_eq_true, decide_eq_true_iff, decide_eq_true_iff]
  exact hdigit

/-- The value of a decimal numeral is its number. -/
theorem numeralValue_toDigits
    (n : Nat) :
    numeralValue (Nat.toDigits 10 n) = n := by
  have hvalue : numeralValue (Nat.toDigits 10 n) = Nat.ofDigitChars 10 (Nat.toDigits 10 n) 0 := by
    simp only [numeralValue, digitValue, Nat.ofDigitChars_eq_foldl, Nat.mul_comm]
  rw [hvalue, Nat.ofDigitChars_ten_toDigits]

theorem exists_toDigits
    (n : Nat) :
    ∃ c ds, Nat.toDigits 10 n = c :: ds ∧ isDigit c = true := by
  obtain ⟨c, ds, hdigits⟩ := List.exists_cons_of_ne_nil (Nat.toDigits_ne_nil (n := n) (b := 10))
  exact ⟨c, ds, hdigits, isDigit_of_mem_toDigits (hdigits ▸ List.mem_cons_self)⟩

/-- Further digits never make a numeral smaller. -/
theorem le_foldl_digits
    (n : Nat) (cs : List Char) :
    n ≤ cs.foldl (fun n c => n * 10 + digitValue c) n := by
  induction cs generalizing n with
  | nil => exact Nat.le_refl n
  | cons c cs ih =>
      rw [List.foldl_cons]
      have hstep := ih (n * 10 + digitValue c)
      omega

/-- Digits extend a number that stays in range to their value. -/
theorem Bounds.extend_of_isDigit
    {b : Bounds} {n : Nat} {cs : List Char}
    (hlow : b.low ≤ 0)
    (hdigits : ∀ c ∈ cs, isDigit c = true)
    (hhigh : (cs.foldl (fun n c => n * 10 + digitValue c) n : Nat) ≤ b.high) :
    b.extend 1 n cs = .ok (cs.foldl (fun n c => n * 10 + digitValue c) n : Nat) := by
  induction cs generalizing n with
  | nil => rfl
  | cons c cs ih =>
      rw [List.forall_mem_cons] at hdigits
      rw [List.foldl_cons] at hhigh ⊢
      have hgrown := le_foldl_digits (n * 10 + digitValue c) cs
      have hcheck : b.check ((n : Int) * 10 + 1 * (digitValue c : Int)) =
          .ok (n * 10 + digitValue c : Nat) := by
        have hvalue : (n : Int) * 10 + 1 * (digitValue c : Int) =
            ((n * 10 + digitValue c : Nat) : Int) := by
          omega
        rw [hvalue, check, if_neg (by omega), if_neg (by omega)]
      rw [extend, if_pos hdigits.1, hcheck]
      exact ih hdigits.2 hhigh

/-- A decimal numeral in range is read as its number. -/
theorem readInt_toDigits
    {b : Bounds} {n : Nat}
    (hlow : b.low ≤ 0)
    (hhigh : (n : Int) ≤ b.high) :
    readInt b (Nat.toDigits 10 n) = .ok (n : Int) := by
  have hvalue : (Nat.toDigits 10 n).foldl (fun n c => n * 10 + digitValue c) 0 = n :=
    numeralValue_toDigits n
  have hextend : b.extend 1 (0 : Nat) (Nat.toDigits 10 n) = .ok (n : Int) := by
    have hdigits : ∀ c ∈ Nat.toDigits 10 n, isDigit c = true :=
      fun _ hc => isDigit_of_mem_toDigits hc
    rw [Bounds.extend_of_isDigit hlow hdigits (by rwa [hvalue]), hvalue]
  obtain ⟨c, ds, hcons, hc⟩ := exists_toDigits n
  rw [hcons] at hextend ⊢
  unfold readInt
  -- a digit is no sign
  split
  · next hnil => cases hnil
  · next hplus =>
      rw [(List.cons.inj hplus).1] at hc
      exact absurd hc (by decide)
  · next hminus =>
      rw [(List.cons.inj hminus).1] at hc
      exact absurd hc (by decide)
  · next hother =>
      cases hother
      exact hextend

/-- The numeral of a positive number does not lead with zero. -/
theorem toDigits_leading
    {n : Nat}
    (hn : 0 < n) :
    ∃ c cs, Nat.toDigits 10 n = c :: cs ∧ c ≠ '0' := by
  induction n using Nat.strongRecOn with
  | _ n ih =>
      rw [Nat.toDigits_eq_if (by decide)]
      split
      · next hlt =>
          refine ⟨n.digitChar, [], rfl, ?_⟩
          have hdigits : ∀ k < 10, 0 < k → k.digitChar ≠ '0' := by decide
          exact hdigits n hlt hn
      · next hge =>
          obtain ⟨c, cs, hdigits, hc⟩ := ih (n / 10) (by omega) (by omega)
          exact ⟨c, cs ++ [(n % 10).digitChar], by rw [hdigits, List.cons_append], hc⟩

end Text

namespace Hash

/-! ### Hexadecimal digits -/

/-- The number that hexadecimal digits spell behind a number. -/
def hexNumber (n : Nat) (cs : List Char) : Nat :=
  cs.foldl (fun n c => n * 16 + (Json.hexValue? c).getD 0) n

/-- The value of a hexadecimal numeral is its number. -/
theorem hexNumber_toDigits
    (n : Nat) :
    hexNumber 0 (Nat.toDigits 16 n) = n := by
  have hvalue : ∀ k < 16, Json.hexValue? k.digitChar = some k := by decide
  induction n using Nat.strongRecOn with
  | _ n ih =>
      rw [Nat.toDigits_eq_if (by decide)]
      split
      · next hlt =>
          simp [hexNumber, hvalue n hlt]
      · next hge =>
          have hlead : hexNumber 0 (Nat.toDigits 16 (n / 16)) = n / 16 :=
            ih (n / 16) (by omega)
          have hlast := hvalue (n % 16) (by omega)
          rw [hexNumber] at hlead
          rw [hexNumber, List.foldl_append, hlead, List.foldl_cons, List.foldl_nil, hlast,
            Option.getD_some]
          omega

theorem hexNumber_zeros
    (count : Nat) (cs : List Char) :
    hexNumber 0 (List.replicate count '0' ++ cs) = hexNumber 0 cs := by
  induction count with
  | zero => rfl
  | succ count ih =>
      rw [List.replicate_succ, List.cons_append]
      exact ih

/-- Padded hexadecimal numerals tell numbers apart. -/
theorem hex64_injective
    {x y : UInt64}
    (h : hex64 x = hex64 y) :
    x = y := by
  unfold hex64 at h
  dsimp only at h
  have hvalues := congrArg (hexNumber 0) (String.ofList_inj.mp h)
  rw [hexNumber_zeros, hexNumber_zeros, hexNumber_toDigits, hexNumber_toDigits] at hvalues
  exact UInt64.toNat_inj.mp hvalues

end Hash
end LiveProbe
