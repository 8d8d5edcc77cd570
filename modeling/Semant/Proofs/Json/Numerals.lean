import Semant.Proofs.Json.Grammar

/-!
# Numbers

Natural numbers are written in one way (`Numeral.ofNat`), and read back from it.
-/

set_option autoImplicit false

/-- A natural number as a value. -/
def Semant.Json.ofNat (n : Nat) : Semant.Json := .number (.ofNat n)

namespace Semant.Json.Numeral

/-! ## Natural numbers -/

theorem digitsValue_eq (digits : List Char) : digitsValue digits = Nat.ofDigitChars 10 digits 0 := by
  rw [Nat.ofDigitChars_eq_foldl]
  rfl

theorem digitsValue_toDigits (n : Nat) : digitsValue (Nat.toDigits 10 n) = n := by
  rw [digitsValue_eq, Nat.ofDigitChars_ten_toDigits]

theorem toNat?_ofNat (n : Nat) : (ofNat n).toNat? = some n :=
  congrArg some (digitsValue_toDigits n)

/-- The digits of a positive number do not begin with a zero. -/
theorem head_toDigits (n : Nat) (h : 0 < n) : (Nat.toDigits 10 n).head? ≠ some '0' := by
  induction n using Nat.strongRecOn with
  | ind n ih =>
    by_cases hlt : n < 10
    · have hall : ∀ k, k < 10 → 0 < k → [k.digitChar].head? ≠ some '0' := by decide
      rw [Nat.toDigits_of_lt_base hlt]
      exact hall n hlt h
    · rw [Nat.toDigits_of_base_le (by decide) (Nat.le_of_not_lt hlt)]
      have hdiv := ih (n / 10) (by omega) (by omega)
      cases hdigits : Nat.toDigits 10 (n / 10) with
      | nil => exact absurd hdigits Nat.toDigits_ne_nil
      | cons c rest =>
        rw [hdigits] at hdiv
        exact hdiv

theorem ofNat_wellFormed (n : Nat) : (ofNat n).WellFormed where
  whole := by
    refine ⟨Nat.toDigits_ne_nil, fun c hc => ?_⟩
    have hdigit := Nat.isDigit_of_mem_toDigits (by decide) (by decide) hc
    simpa [Char.isDigit, Char.le_def] using hdigit
  zero := by
    intro hhead
    rcases Nat.eq_zero_or_pos n with rfl | hpos
    · rfl
    · exact absurd hhead (head_toDigits n hpos)
  fraction := nofun
  exponent := nofun

end Semant.Json.Numeral
