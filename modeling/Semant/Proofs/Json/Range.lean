import Mathlib.Algebra.Order.Field.Power
import Mathlib.Data.Rat.Cast.Order
import Mathlib.Tactic.FieldSimp
import Mathlib.Tactic.GCongr
import Mathlib.Tactic.Linarith
import Mathlib.Tactic.NormNum
import Mathlib.Tactic.Positivity
import Mathlib.Tactic.Ring
import Semant.Proofs.Json.Numerals

/-!
# Numbers and doubles

The reader refuses numbers that are too large for a double. Its test rounds twice, once the significand
and once the power of ten, and it drops digits before that, so it is not exact. This file bounds what is
lost: every number up to `2 ^ 1024 - 2 ^ 973` passes (`fitsDouble_of_magnitude_le`). Above that are only
the three largest doubles.
-/

set_option autoImplicit false

namespace Semant.Json.Numeral

/-- The exponent of a numeral. -/
def power (n : Numeral) : ℤ :=
  match n.exponent with
  | none => 0
  | some (negative, digits) => if negative then -(digitsValue digits : ℤ) else digitsValue digits

/-- The number that a numeral stands for, without its sign. -/
def magnitude (n : Numeral) : ℚ :=
  digitsValue (n.whole ++ n.fraction.getD []) * 10 ^ (n.power - (n.fraction.getD []).length)

/-! ## Digits -/

theorem digitsValue_append (front back : List Char) :
    digitsValue (front ++ back) = digitsValue front * 10 ^ back.length + digitsValue back := by
  rw [digitsValue_eq, digitsValue_eq, digitsValue_eq, Nat.ofDigitChars_append,
    Nat.ofDigitChars_eq_ofDigitChars_zero, Nat.mul_comm]

theorem digitsValue_singleton (c : Char) : digitsValue [c] = digitValue c := by
  simp [digitsValue]

theorem digitsValue_cons (c : Char) (rest : List Char) :
    digitsValue (c :: rest) = digitValue c * 10 ^ rest.length + digitsValue rest := by
  rw [← List.singleton_append, digitsValue_append, digitsValue_singleton]

theorem digitValue_le {c : Char} (h : '0' ≤ c ∧ c ≤ '9') : digitValue c ≤ 9 := by
  have hle : c.toNat ≤ '9'.toNat := h.2
  unfold digitValue
  simpa using hle

theorem digitsValue_lt {digits : List Char} (h : ∀ c ∈ digits, '0' ≤ c ∧ c ≤ '9') :
    digitsValue digits < 10 ^ digits.length := by
  induction digits with
  | nil => decide
  | cons c rest ih =>
    have hc := digitValue_le (h c List.mem_cons_self)
    have hrest := ih fun d hd => h d (List.mem_cons_of_mem c hd)
    rw [digitsValue_cons, List.length_cons, pow_succ]
    nlinarith [hrest, hc]

theorem absorb_cons (significand : Nat) (c : Char) (rest : List Char) :
    absorb significand (c :: rest) = if 10 * significand + digitValue c < 2 ^ 64
      then absorb (10 * significand + digitValue c) rest else (significand, c :: rest) :=
  rfl

/-- Taking digits in keeps their value, and nothing is left over unless the significand is full. -/
theorem absorb_spec (significand : Nat) {digits : List Char} (h : ∀ c ∈ digits, '0' ≤ c ∧ c ≤ '9') :
    ∃ taken, digits = taken ++ (absorb significand digits).2 ∧
      (absorb significand digits).1 = significand * 10 ^ taken.length + digitsValue taken ∧
      ((absorb significand digits).2 ≠ [] → 2 ^ 60 ≤ (absorb significand digits).1) := by
  induction digits generalizing significand with
  | nil => exact ⟨[], rfl, (Nat.mul_one significand).symm, fun hne => absurd rfl hne⟩
  | cons c rest ih =>
    have hc := digitValue_le (h c List.mem_cons_self)
    rw [absorb_cons]
    split
    · obtain ⟨taken, hrest, hvalue, hfull⟩ := ih (10 * significand + digitValue c)
        fun d hd => h d (List.mem_cons_of_mem c hd)
      refine ⟨c :: taken, by rw [List.cons_append, ← hrest], ?_, hfull⟩
      rw [hvalue, digitsValue_cons, List.length_cons]
      ring
    · next hlarge =>
      refine ⟨[], rfl, by simp [digitsValue], fun _ => ?_⟩
      show 2 ^ 60 ≤ significand
      norm_num at hlarge ⊢
      omega

/-! ## What is lost -/

/-- Digits at the end of the fraction that are not taken in make the number only larger. -/
theorem le_of_unused (front back unused : List Char) (x : ℤ) :
    ((digitsValue front * 10 ^ back.length + digitsValue back : ℕ) : ℚ) * 10 ^ (x - back.length)
      ≤ digitsValue (front ++ (back ++ unused)) * 10 ^ (x - (back ++ unused).length) := by
  have hvalue : (digitsValue front * 10 ^ back.length + digitsValue back) * 10 ^ unused.length
      ≤ digitsValue (front ++ (back ++ unused)) := by
    rw [← List.append_assoc, digitsValue_append (front ++ back), digitsValue_append front]
    exact Nat.le_add_right _ _
  have hpower : (10 : ℚ) ^ (x - back.length)
      = 10 ^ unused.length * 10 ^ (x - (back ++ unused).length) := by
    rw [← zpow_natCast, ← zpow_add₀ (by norm_num), List.length_append]
    congr 1
    push_cast
    ring
  calc ((digitsValue front * 10 ^ back.length + digitsValue back : ℕ) : ℚ) * 10 ^ (x - back.length)
      = (((digitsValue front * 10 ^ back.length + digitsValue back) * 10 ^ unused.length : ℕ) : ℚ)
          * 10 ^ (x - (back ++ unused).length) := by
        rw [hpower]
        push_cast
        ring
    _ ≤ digitsValue (front ++ (back ++ unused)) * 10 ^ (x - (back ++ unused).length) := by
        gcongr

/-- Digits in front of the point are dropped only behind so many others that they hardly count, even
if digits behind the point are taken in after that. -/
theorem le_of_dropped {front back : List Char} (dropped fraction : List Char) (x : ℤ)
    (hfront : 2 ^ 60 ≤ digitsValue front) (hback : ∀ c ∈ back, '0' ≤ c ∧ c ≤ '9') :
    ((digitsValue front * 10 ^ back.length + digitsValue back : ℕ) : ℚ)
        * 10 ^ ((dropped.length : ℤ) - back.length + x)
      ≤ digitsValue (front ++ dropped ++ fraction) * 10 ^ (x - fraction.length) * (1 + 1 / 2 ^ 60) := by
  -- digits taken in behind the point add less than one unit of the last digit in front
  have hsignificand : digitsValue front * 10 ^ back.length + digitsValue back
      ≤ (digitsValue front + 1) * 10 ^ back.length := by
    have := digitsValue_lt hback
    rw [Nat.add_mul, Nat.one_mul]
    omega
  have hvalue : digitsValue front * 10 ^ (dropped.length + fraction.length)
      ≤ digitsValue (front ++ dropped ++ fraction) := by
    rw [List.append_assoc, digitsValue_append, List.length_append]
    exact Nat.le_add_right _ _
  -- and one unit is small against a significand of 60 bits
  have hrelative : ((digitsValue front + 1 : ℕ) : ℚ) ≤ digitsValue front * (1 + 1 / 2 ^ 60) := by
    have hcast : (2 : ℚ) ^ 60 ≤ digitsValue front := by exact_mod_cast hfront
    push_cast
    rw [mul_add, mul_one, mul_one_div]
    gcongr
    rw [le_div_iff₀ (by norm_num)]
    linarith
  calc ((digitsValue front * 10 ^ back.length + digitsValue back : ℕ) : ℚ)
          * 10 ^ ((dropped.length : ℤ) - back.length + x)
      ≤ (((digitsValue front + 1) * 10 ^ back.length : ℕ) : ℚ)
          * 10 ^ ((dropped.length : ℤ) - back.length + x) := by gcongr
    _ = ((digitsValue front + 1 : ℕ) : ℚ) * 10 ^ ((dropped.length : ℤ) + x) := by
        push_cast
        rw [mul_assoc, ← zpow_natCast, ← zpow_add₀ (by norm_num)]
        congr 2
        ring
    _ ≤ digitsValue front * (1 + 1 / 2 ^ 60) * 10 ^ ((dropped.length : ℤ) + x) := by gcongr
    _ = ((digitsValue front * 10 ^ (dropped.length + fraction.length) : ℕ) : ℚ)
          * 10 ^ (x - fraction.length) * (1 + 1 / 2 ^ 60) := by
        have hpower : (10 : ℚ) ^ ((dropped.length : ℤ) + x)
            = 10 ^ (dropped.length + fraction.length) * 10 ^ (x - fraction.length) := by
          rw [← zpow_natCast, ← zpow_add₀ (by norm_num)]
          congr 1
          push_cast
          ring
        rw [hpower]
        push_cast
        ring
    _ ≤ digitsValue (front ++ dropped ++ fraction) * 10 ^ (x - fraction.length) * (1 + 1 / 2 ^ 60) := by
        gcongr

/-- The significand and its power of ten are hardly larger than the number. -/
theorem parts_le {n : Numeral} (h : n.WellFormed) :
    (n.parts.1 : ℚ) * 10 ^ n.parts.2 ≤ n.magnitude * (1 + 1 / 2 ^ 60) := by
  have hdigits : ∀ c ∈ n.fraction.getD [], '0' ≤ c ∧ c ≤ '9' := by
    cases hf : n.fraction with
    | none => exact fun c hc => absurd hc List.not_mem_nil
    | some digits => exact (h.fraction digits hf).2
  obtain ⟨front, hfront, hvalue, hfull⟩ := absorb_spec 0 h.whole.2
  obtain ⟨back, hback, hvalue', -⟩ := absorb_spec (absorb 0 n.whole).1 hdigits
  have hparts : n.parts = ((absorb (absorb 0 n.whole).1 (n.fraction.getD [])).1,
      ((absorb 0 n.whole).2.length : ℤ) - back.length + n.power) := by
    have hlength : (n.fraction.getD []).length
        - (absorb (absorb 0 n.whole).1 (n.fraction.getD [])).2.length = back.length := by
      have := congrArg List.length hback
      rw [List.length_append] at this
      omega
    exact Prod.ext rfl (congrArg (fun k : Nat => ((absorb 0 n.whole).2.length : ℤ) - k + n.power) hlength)
  have hfront' : digitsValue front = (absorb 0 n.whole).1 := by rw [hvalue, Nat.zero_mul, Nat.zero_add]
  rw [hparts, hvalue', ← hfront', magnitude]
  rw [← hfront'] at hfull
  -- If the whole part is taken in as it is, only digits at the end get lost. Otherwise the significand is
  -- large already, and the digits dropped make up at most one unit of it.
  by_cases hdropped : (absorb 0 n.whole).2 = []
  · rw [hdropped, List.append_nil] at hfront
    rw [hdropped, hfront]
    refine le_trans ?_ (le_mul_of_one_le_right (by positivity) (by norm_num))
    rw [List.length_nil, Nat.cast_zero, zero_sub, neg_add_eq_sub]
    have hle := le_of_unused front back (absorb (absorb 0 n.whole).1 (n.fraction.getD [])).2 n.power
    rwa [← hback] at hle
  · have hbackDigits : ∀ c ∈ back, '0' ≤ c ∧ c ≤ '9' := fun c hc =>
      hdigits c (hback ▸ List.mem_append_left _ hc)
    have hle := le_of_dropped (absorb 0 n.whole).2 (n.fraction.getD []) n.power (hfull hdropped) hbackDigits
    rwa [← hfront] at hle

theorem unit_le (k : Nat) :
    Nat.pow 2 (Nat.log2 k + 1 - 53) = 1 ∨ Nat.pow 2 (Nat.log2 k + 1 - 53) * 2 ^ 52 ≤ k := by
  by_cases hsmall : Nat.log2 k + 1 ≤ 53
  · left
    rw [Nat.sub_eq_zero_of_le hsmall, Nat.pow_eq, pow_zero]
  · right
    have hk : k ≠ 0 := by
      rintro rfl
      exact hsmall (by decide)
    have hexponent : Nat.log2 k = Nat.log2 k + 1 - 53 + 52 := by omega
    calc Nat.pow 2 (Nat.log2 k + 1 - 53) * 2 ^ 52 = 2 ^ Nat.log2 k := by
          rw [Nat.pow_eq, ← pow_add, ← hexponent]
      _ ≤ k := Nat.log2_self_le hk

/-- Rounding to a double adds hardly anything. -/
theorem roundToDouble_le (k : Nat) : 2 ^ 53 * roundToDouble k ≤ (2 ^ 53 + 1) * k := by
  have hunit := unit_le k
  have hdiv := Nat.div_add_mod k (Nat.pow 2 (Nat.log2 k + 1 - 53))
  have hmod := Nat.mod_lt k (show 0 < Nat.pow 2 (Nat.log2 k + 1 - 53) from Nat.two_pow_pos _)
  unfold roundToDouble
  dsimp only
  generalize Nat.pow 2 (Nat.log2 k + 1 - 53) = unit at *
  generalize k / unit = q at *
  generalize k % unit = r at *
  split
  · next hup =>
    -- At most half a unit is added, and a unit is at most `k / 2 ^ 52`.
    have hround : (q + 1) * unit = unit * q + unit := by ring
    rw [hround]
    generalize unit * q = m at *
    norm_num at hunit ⊢
    omega
  · rw [Nat.mul_comm q unit]
    generalize unit * q = m at *
    norm_num
    omega

/-- Two roundings and the digits that are dropped leave the number below the point from which on it
would be rounded to infinity. -/
theorem product_lt {significand power : Nat}
    (h : significand * power * 2 ^ 60 ≤ (2 ^ 1024 - 2 ^ 973) * (2 ^ 60 + 1)) :
    roundToDouble significand * roundToDouble power < Nat.pow 2 1024 - Nat.pow 2 970 := by
  have hproduct := Nat.mul_le_mul (roundToDouble_le significand) (roundToDouble_le power)
  refine Nat.lt_of_mul_lt_mul_left (a := 2 ^ 53 * 2 ^ 53 * 2 ^ 60) ?_
  calc 2 ^ 53 * 2 ^ 53 * 2 ^ 60 * (roundToDouble significand * roundToDouble power)
      = 2 ^ 53 * roundToDouble significand * (2 ^ 53 * roundToDouble power) * 2 ^ 60 := by ring
    _ ≤ (2 ^ 53 + 1) * significand * ((2 ^ 53 + 1) * power) * 2 ^ 60 := Nat.mul_le_mul_right _ hproduct
    _ = (2 ^ 53 + 1) ^ 2 * (significand * power * 2 ^ 60) := by ring
    _ ≤ (2 ^ 53 + 1) ^ 2 * ((2 ^ 1024 - 2 ^ 973) * (2 ^ 60 + 1)) := Nat.mul_le_mul_left _ h
    _ < 2 ^ 53 * 2 ^ 53 * 2 ^ 60 * (Nat.pow 2 1024 - Nat.pow 2 970) := by decide +kernel

theorem fitsDouble_of_product {n : Numeral} {e : ℕ} (hexponent : n.parts.2 = e) (he : e ≤ 308)
    (hproduct : roundToDouble n.parts.1 * roundToDouble (10 ^ e) < Nat.pow 2 1024 - Nat.pow 2 970) :
    n.fitsDouble = true := by
  have htoNat : n.parts.2.toNat = e := by rw [hexponent, Int.toNat_natCast]
  unfold fitsDouble
  dsimp only
  split
  · rfl
  · rw [if_neg (by omega), htoNat]
    exact decide_eq_true hproduct

theorem cast_pow_sub {a b : ℕ} (h : b ≤ a) : ((2 ^ a - 2 ^ b : ℕ) : ℚ) = 2 ^ a - 2 ^ b := by
  rw [Nat.cast_sub (Nat.pow_le_pow_right (by decide) h), Nat.cast_pow, Nat.cast_pow, Nat.cast_ofNat]

/-- Numbers up to `2 ^ 1024 - 2 ^ 973` pass the reader's test. -/
theorem fitsDouble_of_magnitude_le {n : Numeral} (h : n.WellFormed)
    (hn : n.magnitude ≤ 2 ^ 1024 - 2 ^ 973) : n.fitsDouble = true := by
  by_cases htrivial : n.parts.1 = 0 ∨ n.parts.2 < 0
  · exact if_pos htrivial
  push Not at htrivial
  obtain ⟨hpos, hexponent⟩ := htrivial
  obtain ⟨e, he⟩ := Int.eq_ofNat_of_zero_le hexponent
  have hbound : n.parts.1 * 10 ^ e * 2 ^ 60 ≤ (2 ^ 1024 - 2 ^ 973) * (2 ^ 60 + 1) := by
    have hparts := parts_le h
    rw [he, zpow_natCast] at hparts
    rw [← cast_pow_sub (by decide)] at hn
    -- The bound itself does not matter here, and the casts would try to compute it.
    generalize 2 ^ 1024 - 2 ^ 973 = bound at hn ⊢
    have hle : (n.parts.1 : ℚ) * 10 ^ e * 2 ^ 60 ≤ bound * (2 ^ 60 + 1) := by
      calc (n.parts.1 : ℚ) * 10 ^ e * 2 ^ 60
          ≤ n.magnitude * (1 + 1 / 2 ^ 60) * 2 ^ 60 := by gcongr
        _ = n.magnitude * (2 ^ 60 + 1) := by ring
        _ ≤ bound * (2 ^ 60 + 1) := by gcongr
    exact_mod_cast hle
  -- The reader has a table of powers, and the exponent does not leave it.
  have hsmall : e ≤ 308 := by
    by_contra hnot
    have hlarge : 309 ≤ e := Nat.lt_of_not_le hnot
    have hone := (Nat.pow_le_pow_right (show 0 < 10 by decide) hlarge).trans
      (Nat.le_mul_of_pos_left _ (Nat.pos_of_ne_zero hpos))
    exact absurd ((Nat.mul_le_mul_right (2 ^ 60) hone).trans hbound) (by decide +kernel)
  exact fitsDouble_of_product he hsmall (product_lt hbound)

/-- Bounds of whole numbers are a matter of natural numbers. -/
theorem magnitude_le {n : Numeral} {k e a b : ℕ}
    (hk : digitsValue (n.whole ++ n.fraction.getD []) = k)
    (he : n.power - (n.fraction.getD []).length = e) (hle : k * 10 ^ e ≤ 2 ^ a - 2 ^ b)
    (hab : b ≤ a) : n.magnitude ≤ 2 ^ a - 2 ^ b := by
  rw [magnitude, hk, he, zpow_natCast, ← cast_pow_sub hab]
  exact_mod_cast hle

end Semant.Json.Numeral
