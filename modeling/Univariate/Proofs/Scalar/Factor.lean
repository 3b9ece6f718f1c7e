import Univariate.Proofs.Scalar.Exact

/-!
# Factors of one and minus one

Products through which such a factor moves freely, and numbers that are the same whatever the signs
of their zeros.
-/

namespace Univariate

namespace Scalar

/-- A factor of one changes nothing and a factor of minus one negates, wherever it stands. -/
class LawfulFactor (α : Type) [Scalar α] : Prop where
  mul_one (x : α) : x * 1 = x
  mul_neg_one (x : α) : x * -1 = -x
  one_mul (x : α) : 1 * x = x
  neg_one_mul (x : α) : -1 * x = -x
  neg_mul (x y : α) : -x * y = -(x * y)
  neg_neg (x : α) : -(-x) = x
  neg_one_lt_zero : (-1 : α) < 0
  not_one_lt_zero : ¬(1 : α) < 0

variable {α : Type} [Scalar α]

/-- Both are no number, or they are the same number, the zeros of both signs being one. -/
def Agree (x y : α) : Prop := (isNaN x = true ∧ isNaN y = true) ∨ (x == y) = true

/-- The sign of a zero is lost in every sum, and no sign makes a number of what is none. -/
class LawfulAgree (α : Type) [Scalar α] : Prop where
  refl (x : α) : Agree x x
  neg_zero : Agree (-0 : α) 0
  neg_nan : Agree (-nan : α) nan
  add {x x' y y' : α} (hx : Agree x x') (hy : Agree y y') : Agree (x + y) (x' + y')

/-- Sums of values that agree one by one agree. -/
theorem Agree.sum [LawfulAgree α] {values values' : List α}
    (h : List.Forall₂ Agree values values') : Agree (sum values) (sum values') := by
  have hfold : ∀ {total total' : α}, Agree total total' →
      Agree (values.foldl (· + ·) total) (values'.foldl (· + ·) total') := by
    induction h with
    | nil => exact id
    | cons hvalue _ ih => exact fun htotal => ih (LawfulAgree.add htotal hvalue)
  exact hfold (LawfulAgree.refl _)

end Scalar

namespace Exact

variable {E : Elementary}

@[simp]
theorem neg_notFinite : -(notFinite : Exact E) = notFinite := rfl

theorem neg_mul (x y : Exact E) : -x * y = -(x * y) := by
  cases x <;> cases y <;> try rfl
  simp

theorem mul_neg (x y : Exact E) : x * -y = -(x * y) := by
  cases x <;> cases y <;> try rfl
  simp

theorem mul_one (x : Exact E) : x * 1 = x := by
  cases x <;> try rfl
  simp

theorem one_mul (x : Exact E) : 1 * x = x := by
  cases x <;> try rfl
  simp

instance : Scalar.LawfulFactor (Exact E) where
  mul_one := mul_one
  mul_neg_one x := by rw [mul_neg, mul_one]
  one_mul := one_mul
  neg_one_mul x := by rw [neg_mul, one_mul]
  neg_mul := neg_mul
  neg_neg x := by cases x <;> simp
  neg_one_lt_zero := by simp
  not_one_lt_zero := by simp

/-- There is one zero and one value that is no number. -/
theorem agree_iff {x y : Exact E} : Scalar.Agree x y ↔ x = y := by
  unfold Scalar.Agree
  cases x with
  | notFinite => cases y <;> simp [Scalar.isNaN]
  | rational p => cases y <;> simp [Scalar.isNaN]

instance : Scalar.LawfulAgree (Exact E) where
  refl x := agree_iff.mpr rfl
  neg_zero := agree_iff.mpr (by simp)
  neg_nan := agree_iff.mpr rfl
  add hx hy := agree_iff.mpr (by rw [agree_iff.mp hx, agree_iff.mp hy])

end Exact

end Univariate
