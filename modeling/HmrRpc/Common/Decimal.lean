import Mathlib.Data.List.Basic
import Mathlib.Tactic.Common

/-!
# Decimal numerals

A numeral is a nonempty list of digits and denotes the number `Nat.ofDigitChars` reads from
it. Every number has one numeral without a leading zero, the one `Nat.toDigits` writes.
-/

namespace HmrRpc.Common

/-- A decimal numeral. -/
structure IsNumeral (cs : List Char) : Prop where
  nonempty : cs ≠ []
  digits : ∀ c ∈ cs, c.isDigit

/-- The number it denotes. -/
def numeralValue (cs : List Char) : ℕ := Nat.ofDigitChars 10 cs 0

/-- A zero stands in front only on its own. -/
def NoLeadingZero (cs : List Char) : Prop := cs.head? = some '0' → cs.length = 1

/-- So a numeral can be recognized. -/
theorem isNumeral_iff (cs : List Char) :
    (!cs.isEmpty && cs.all Char.isDigit) = true ↔ IsNumeral cs := by
  rw [Bool.and_eq_true, Bool.not_eq_true', List.isEmpty_eq_false_iff, List.all_eq_true]
  exact ⟨fun h => ⟨h.1, h.2⟩, fun h => ⟨h.1, h.2⟩⟩

instance (cs : List Char) : Decidable (IsNumeral cs) := decidable_of_iff _ (isNumeral_iff cs)

instance (cs : List Char) : Decidable (NoLeadingZero cs) :=
  inferInstanceAs (Decidable (_ → _))

/-- The codes of the digits. -/
theorem isDigit_toNat {c : Char} (h : c.isDigit) : 48 ≤ c.toNat ∧ c.toNat ≤ 57 := by
  simpa [Char.isDigit, UInt32.le_iff_toNat_le] using h

/-- A digit is the one of its value, which is below ten. -/
theorem digitChar_of_isDigit {c : Char} (h : c.isDigit) :
    c.toNat - 48 < 10 ∧ Nat.digitChar (c.toNat - 48) = c := by
  obtain ⟨hlo, hhi⟩ := isDigit_toNat h
  have hlt : c.toNat - 48 < 10 := by omega
  refine ⟨hlt, Char.toNat_inj.mp ?_⟩
  rw [Nat.toNat_digitChar_of_lt_ten hlt]
  omega

/-- Reading on from a positive number appends to what is written for it. -/
theorem toDigits_ofDigitChars_of_pos {cs : List Char} (hcs : ∀ c ∈ cs, c.isDigit) {n : ℕ}
    (hn : 0 < n) : Nat.toDigits 10 (Nat.ofDigitChars 10 cs n) = Nat.toDigits 10 n ++ cs := by
  induction cs generalizing n with
  | nil => simp
  | cons c cs ih =>
    obtain ⟨hlt, hc⟩ := digitChar_of_isDigit (hcs c (by simp))
    have hstep : Nat.toDigits 10 (10 * n + (c.toNat - 48)) = Nat.toDigits 10 n ++ [c] := by
      rw [← Nat.toDigits_append_toDigits (by decide) hn hlt, Nat.toDigits_of_lt_base hlt, hc]
    have hrest := ih (fun d hd => hcs d (by simp [hd])) (n := 10 * n + (c.toNat - 48)) (by omega)
    calc
      Nat.toDigits 10 (Nat.ofDigitChars 10 (c :: cs) n) =
          Nat.toDigits 10 (Nat.ofDigitChars 10 cs (10 * n + (c.toNat - 48))) := by
        rw [Nat.ofDigitChars_cons]
        rfl
      _ = Nat.toDigits 10 n ++ [c] ++ cs := by rw [hrest, hstep]
      _ = Nat.toDigits 10 n ++ c :: cs := by rw [List.append_assoc, List.singleton_append]

/-- A numeral without a leading zero is what is written for its value. -/
theorem IsNumeral.toDigits_value {cs : List Char} (h : IsNumeral cs) (hzero : NoLeadingZero cs) :
    Nat.toDigits 10 (numeralValue cs) = cs := by
  cases cs with
  | nil => exact absurd rfl h.nonempty
  | cons c cs =>
    obtain ⟨hlt, hc⟩ := digitChar_of_isDigit (h.digits c (by simp))
    have hvalue : numeralValue (c :: cs) = Nat.ofDigitChars 10 cs (c.toNat - 48) := by
      rw [numeralValue, Nat.ofDigitChars_cons]
      simp
    rw [hvalue]
    by_cases hpos : 0 < c.toNat - 48
    · rw [toDigits_ofDigitChars_of_pos (fun d hd => h.digits d (by simp [hd])) hpos,
        Nat.toDigits_of_lt_base hlt, hc, List.singleton_append]
    · have hnat : c.toNat - 48 = 0 := by omega
      rw [hnat] at hc ⊢
      have hlength := hzero (by rw [List.head?_cons, ← hc]; rfl)
      obtain rfl : cs = [] := by simpa using hlength
      rw [Nat.ofDigitChars_nil, Nat.toDigits_zero, ← hc]
      rfl

/-- What is written for a number is a numeral. -/
theorem isNumeral_toDigits (n : ℕ) : IsNumeral (Nat.toDigits 10 n) where
  nonempty := Nat.toDigits_ne_nil
  digits _ hc := Nat.isDigit_of_mem_toDigits (by decide) (by decide) hc

/-- It denotes the number. -/
theorem numeralValue_toDigits (n : ℕ) : numeralValue (Nat.toDigits 10 n) = n :=
  Nat.ofDigitChars_ten_toDigits

/-- For a positive number it does not start with a zero. -/
theorem head?_toDigits_of_pos {n : ℕ} (hn : 0 < n) : (Nat.toDigits 10 n).head? ≠ some '0' := by
  induction n using Nat.strongRecOn with
  | ind n ih =>
    rw [Nat.toDigits_eq_if (by decide)]
    split
    · intro h
      exact Nat.ne_of_gt hn (Nat.digitChar_eq_zero.mp (Option.some.inj h))
    · rename_i hge
      rw [List.head?_append_of_ne_nil _ Nat.toDigits_ne_nil]
      exact ih (n / 10) (by omega) (by omega)

/-- So it has no leading zero. -/
theorem noLeadingZero_toDigits (n : ℕ) : NoLeadingZero (Nat.toDigits 10 n) := by
  intro hhead
  rcases Nat.eq_zero_or_pos n with rfl | hn
  · rfl
  · exact absurd hhead (head?_toDigits_of_pos hn)

end HmrRpc.Common
