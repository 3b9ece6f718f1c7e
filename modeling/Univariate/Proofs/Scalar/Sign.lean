import Univariate.Scalar

/-! # Scalars on which signs act as they should -/

namespace Univariate.Scalar

/-- Multiplying by one or minus one is exact, reading a minus sign negates, and a finite value
equals itself and is written as a decimal. -/
class LawfulSign (α : Type) [Scalar α] : Prop where
  mul_one (x : α) : x * 1 = x
  mul_neg_one (x : α) : x * -1 = -x
  ofNumeral_decimal_true (digits : Nat) (exponent : Int) :
    (ofNumeral (.decimal true digits exponent) : α) = -ofNumeral (.decimal false digits exponent)
  isFinite_zero : isFinite (0 : α) = true
  beq_comm (x y : α) : (x == y) = (y == x)
  beq_self {x : α} (h : isFinite x = true) : (x == x) = true
  exists_toNumeral_eq {x : α} (h : isFinite x = true) :
    ∃ negative digits exponent, toNumeral x = .decimal negative digits exponent

/-- A minus sign in front of the digits negates the number that is read. -/
def ReadsMinus (α : Type) [Scalar α] : Prop :=
  ∀ (digits : Nat) (exponent : Int),
    (ofNumeral (.decimal true digits exponent) : α) = -ofNumeral (.decimal false digits exponent)

theorem readsMinus_of_lawfulSign {α : Type} [Scalar α] [LawfulSign α] : ReadsMinus α :=
  LawfulSign.ofNumeral_decimal_true

end Univariate.Scalar
