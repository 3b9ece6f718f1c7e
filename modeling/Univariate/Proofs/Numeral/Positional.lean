import Mathlib.Algebra.Ring.Nat
import Univariate.Proofs.Numeral.Digits

/-!
# Positional writing is read again

The text of a decimal, digit by digit and with no exponent, reads as a decimal of the same value.
-/

namespace Univariate.Numeral

/-! ### Digits -/

theorem digitsValue_append (t u : Text) :
    digitsValue (t ++ u) = 10 ^ u.length * digitsValue t + digitsValue u := by
  have happend : digitsValue (t ++ u) = Nat.ofDigitChars 10 u (Nat.ofDigitChars 10 t 0) :=
    Nat.ofDigitChars_append 0
  rw [happend, Nat.ofDigitChars_eq_ofDigitChars_zero]
  rfl

theorem digitsValue_naturalText (n : Nat) : digitsValue (naturalText n) = n :=
  Nat.ofDigitChars_toDigits (by decide) (by decide)

theorem digitsValue_zeros (n : Nat) : digitsValue (zeros n) = 0 :=
  Nat.ofDigitChars_replicate_zero.trans (Nat.mul_zero _)

/-! ### Decimals -/

/-- The decimal with the same value that has no zeros to be filled up behind its digits. -/
def filled (digits : Nat) : Int → Nat × Int
  | .ofNat n => (digits * 10 ^ n, 0)
  | .negSucc n => (digits, .negSucc n)

theorem magnitude?_withPoint {digits : Text} (h : IsDigits digits) {places : Nat}
    (hplaces : places ≠ 0) :
    magnitude? (withPoint digits places) = some (digitsValue digits, -(places : Int)) := by
  obtain ⟨w, f, n, htext, hw, hf, hlength, hpadded⟩ := exists_withPoint_eq h hplaces
  rw [htext, hw.magnitude?_append hf, hpadded, hlength, digitsValue_append, digitsValue_zeros,
    Nat.mul_zero, Nat.zero_add]

theorem magnitude?_positional (digits : Nat) (exponent : Int) :
    magnitude? (positional digits exponent) = some (filled digits exponent) := by
  cases exponent with
  | ofNat n =>
      change magnitude? (if digits == 0 then ['0'] else naturalText digits ++ zeros n) = _
      split
      · next hzero =>
          rw [beq_iff_eq] at hzero
          subst hzero
          rw [filled, Nat.zero_mul]
          rfl
      · have hdigits := isDigits_naturalText digits
        have htext : IsDigits (naturalText digits ++ zeros n) := by
          refine ⟨by simp [hdigits.1], fun c hc => ?_⟩
          rcases List.mem_append.mp hc with hc | hc
          · exact hdigits.2 c hc
          · exact isDigit_of_mem_zeros hc
        rw [htext.magnitude?_eq, digitsValue_append, digitsValue_naturalText, digitsValue_zeros,
          zeros, List.length_replicate, Nat.add_zero, Nat.mul_comm]
        rfl
  | negSucc n =>
      change magnitude? (withPoint (naturalText digits) (n + 1)) = _
      rw [magnitude?_withPoint (isDigits_naturalText digits) (Nat.succ_ne_zero n),
        digitsValue_naturalText]
      rfl

/-- **Decimals are read as they are written.** -/
theorem ofText?_plain (negative : Bool) (digits : Nat) (exponent : Int) :
    ofText? (plain (.decimal negative digits exponent)) =
      some (.decimal negative (filled digits exponent).1 (filled digits exponent).2) := by
  have hread := (isUnsigned_positional digits exponent).ofText?_eq (magnitude?_positional _ _)
  cases negative with
  | false => exact hread.1
  | true => exact hread.2

theorem ofText?_integerText (n : Int) : ofText? (integerText n) = some (.ofInt n) := by
  have hdigits := isDigits_naturalText n.natAbs
  have hread := (IsUnsigned.whole hdigits).ofText?_eq hdigits.magnitude?_eq
  rw [digitsValue_naturalText] at hread
  unfold integerText ofInt
  by_cases hneg : n < 0
  · rw [if_pos hneg, decide_eq_true hneg]
    exact hread.2
  · rw [if_neg hneg, decide_eq_false hneg]
    exact hread.1

theorem filled_nonpos (digits : Nat) (exponent : Int) : (filled digits exponent).2 ≤ 0 := by
  cases exponent with
  | ofNat n => exact Int.le_refl 0
  | negSucc n => exact Int.le_of_lt (Int.negSucc_lt_zero n)

end Univariate.Numeral
