import Univariate.Proofs.Summand.Leaves
import Univariate.Term.Calculus

/-!
# Factors of terms

A factor of one or minus one can stay outside a term or go into its coefficient. The coefficient of
an unrecognized term is the sign its text starts with.
-/

namespace Univariate

open Scalar (Agree LawfulAgree LawfulFactor)

variable {α : Type} [Scalar α]

theorem Term.exists_scaled_unrecognized (raw : Text) (s : α) :
    ∃ raw', (unrecognized raw : Term α).scaled s = unrecognized raw' := by
  unfold scaled
  dsimp only
  split
  · split <;> exact ⟨_, rfl⟩
  · exact ⟨_, rfl⟩

variable [LawfulFactor α]

namespace Summand

/-- Such a factor commutes with the coefficient and associates with the rest of the product. -/
theorem IsFactor.mul_mul {s : α} (hs : IsFactor s) (c v : α) : s * (c * v) = c * s * v := by
  rcases hs with rfl | rfl
  · rw [LawfulFactor.one_mul, LawfulFactor.mul_one]
  · rw [LawfulFactor.neg_one_mul, LawfulFactor.mul_neg_one, LawfulFactor.neg_mul]

theorem IsFactor.mul_comm {s : α} (hs : IsFactor s) (c : α) : s * c = c * s := by
  have h := hs.mul_mul c 1
  rwa [LawfulFactor.mul_one, LawfulFactor.mul_one] at h

theorem IsFactor.mul_neg {s : α} (hs : IsFactor s) (c : α) : c * -s = c * s * -1 := by
  rcases hs with rfl | rfl
  · rw [LawfulFactor.mul_one]
  · rw [LawfulFactor.neg_neg, LawfulFactor.mul_neg_one, LawfulFactor.mul_neg_one,
      LawfulFactor.neg_neg, LawfulFactor.mul_one]

end Summand

namespace Term

open Summand (IsFactor)

theorem scaled_one (t : Term α) : t.scaled 1 = t := by
  cases t with
  | unrecognized raw => exact if_neg LawfulFactor.not_one_lt_zero
  | _ => simp [scaled, LawfulFactor.mul_one]

theorem scaled_neg_one_unrecognized {raw : Text} (h : Summand.startsSigned raw = false) :
    (unrecognized raw : Term α).scaled (-1) = unrecognized ('-' :: raw) := by
  refine (if_pos LawfulFactor.neg_one_lt_zero).trans ?_
  split
  · simp [Summand.startsSigned, Summand.isSign] at h
  · rfl

theorem scaled_neg_one_unrecognized_minus (raw : Text) :
    (unrecognized ('-' :: raw) : Term α).scaled (-1) = unrecognized raw :=
  if_pos LawfulFactor.neg_one_lt_zero

/-- Turning the factor around scales once more by minus one. A text that starts with two minus signs
would lose one of them. -/
theorem scaled_neg {t : Term α} {s : α} (hs : IsFactor s)
    (hraw : ∀ raw, t = unrecognized raw → Summand.startsSigned raw = false) :
    t.scaled (-s) = (t.scaled s).scaled (-1) := by
  cases t with
  | unrecognized raw =>
      rcases hs with rfl | rfl
      · rw [scaled_one]
      · rw [LawfulFactor.neg_neg, scaled_one, scaled_neg_one_unrecognized (hraw raw rfl),
          scaled_neg_one_unrecognized_minus]
  | _ => simp only [scaled, hs.mul_neg]

/-- The value times the factor is the value of the scaled term. -/
theorem agree_eval_scaled [LawfulAgree α] (t : Term α) {s : α} (hs : IsFactor s) (x : α) :
    Agree (s * t.eval x) ((t.scaled s).eval x) := by
  cases t with
  | power c n =>
      change Agree (s * if n < 0 && x == 0 then Scalar.nan else c * Scalar.pow x n)
        (if n < 0 && x == 0 then Scalar.nan else c * s * Scalar.pow x n)
      split
      · rcases hs with rfl | rfl
        · rw [LawfulFactor.one_mul]
          exact LawfulAgree.refl _
        · rw [LawfulFactor.neg_one_mul]
          exact LawfulAgree.neg_nan
      · rw [hs.mul_mul]
        exact LawfulAgree.refl _
  | linear c =>
      rw [eval, scaled, eval, hs.mul_mul]
      exact LawfulAgree.refl _
  | exponential c argument =>
      rw [eval, scaled, eval, hs.mul_mul]
      exact LawfulAgree.refl _
  | constant value =>
      rw [eval, scaled, eval, hs.mul_comm]
      exact LawfulAgree.refl _
  | wave kind c =>
      rw [eval, scaled, eval, hs.mul_mul]
      exact LawfulAgree.refl _
  | unrecognized raw =>
      obtain ⟨raw', hraw⟩ := exists_scaled_unrecognized raw s
      rw [hraw]
      change Agree (s * 0) 0
      rcases hs with rfl | rfl
      · rw [LawfulFactor.one_mul]
        exact LawfulAgree.refl _
      · rw [LawfulFactor.neg_one_mul]
        exact LawfulAgree.neg_zero

end Term

end Univariate
