import Univariate.Scalar

/-! # Scalars whose comparisons order the numbers -/

namespace Univariate.Scalar

/-- The numbers are in one order, up to zeros of two signs, and whatever is no number is outside
of it. Sorting follows that order. -/
class LawfulOrder (α : Type) [Scalar α] : Prop where
  isNaN_of_le {x y : α} (h : x ≤ y) : isNaN x = false ∧ isNaN y = false
  le_total {x y : α} (hx : isNaN x = false) (hy : isNaN y = false) : x ≤ y ∨ y ≤ x
  le_trans {x y z : α} (hxy : x ≤ y) (hyz : y ≤ z) : x ≤ z
  lt_iff_le_not_ge {x y : α} : x < y ↔ x ≤ y ∧ ¬y ≤ x
  beq_iff_le_and_ge {x y : α} : (x == y) = true ↔ x ≤ y ∧ y ≤ x
  isNaN_of_isFinite {x : α} (h : isFinite x = true) : isNaN x = false
  isFinite_of_le_of_le {x y z : α} (hx : isFinite x = true) (hz : isFinite z = true) (hxy : x ≤ y)
    (hyz : y ≤ z) : isFinite y = true
  isNaN_abs (x : α) : isNaN (abs x) = isNaN x
  sortsBefore_trans {x y z : α} (hxy : sortsBefore x y = true) (hyz : sortsBefore y z = true) :
    sortsBefore x z = true
  sortsBefore_total (x y : α) : sortsBefore x y = true ∨ sortsBefore y x = true
  le_of_sortsBefore {x y : α} (hx : isNaN x = false) (hy : isNaN y = false)
    (h : sortsBefore x y = true) : x ≤ y

/-- Sums are undefined only where infinities of both signs meet, and grow with their parts. What is
closer than a distance is reached when the distance is added. -/
class LawfulDistance (α : Type) [Scalar α] : Prop where
  isNaN_add {x y : α} (hx : isFinite x = true) (hy : isFinite y = true) : isNaN (x + y) = false
  isNaN_add_midpoint {x y : α} (h : isNaN (x + y) = false) :
    isNaN ((x + y) / 2) = false ∧ isNaN (x + (x + y) / 2) = false ∧
      isNaN ((x + y) / 2 + y) = false
  add_le_add {x y d : α} (hx : isFinite x = true) (hy : isFinite y = true) (hd : isNaN d = false)
    (h : x ≤ y) : x + d ≤ y + d
  sub_le_sub {x y d : α} (hx : isFinite x = true) (hy : isFinite y = true) (hd : isNaN d = false)
    (h : x ≤ y) : x - d ≤ y - d
  le_add_of_nonneg {x d : α} (hx : isFinite x = true) (hd : 0 ≤ d) : x ≤ x + d
  sub_le_of_nonneg {x d : α} (hx : isFinite x = true) (hd : 0 ≤ d) : x - d ≤ x
  abs_sub_comm (x y : α) : abs (x - y) = abs (y - x)
  le_add_of_abs_sub_lt {x y d : α} (h : abs (x - y) < d) : x ≤ y + d
  sub_le_of_abs_sub_lt {x y d : α} (h : abs (x - y) < d) : y - d ≤ x

/-- Zero is a finite number, and what equals it has no size. -/
class LawfulZero (α : Type) [Scalar α] : Prop where
  isFinite_zero : isFinite (0 : α) = true
  abs_beq_zero {x : α} (h : (x == 0) = true) : (abs x == 0) = true

variable {α : Type} [Scalar α] [LawfulOrder α] {x y z : α}

open LawfulOrder

theorem le_of_lt (h : x < y) : x ≤ y := (lt_iff_le_not_ge.mp h).1

theorem not_ge_of_lt (h : x < y) : ¬y ≤ x := (lt_iff_le_not_ge.mp h).2

theorem not_lt_of_le (h : x ≤ y) : ¬y < x := fun hlt => not_ge_of_lt hlt h

theorem le_refl (h : isNaN x = false) : x ≤ x := (le_total h h).elim id id

theorem lt_of_lt_of_le (hxy : x < y) (hyz : y ≤ z) : x < z := by
  refine lt_iff_le_not_ge.mpr ⟨LawfulOrder.le_trans (le_of_lt hxy) hyz, ?_⟩
  exact fun hzx => not_ge_of_lt hxy (LawfulOrder.le_trans hyz hzx)

theorem le_of_not_lt (hx : isNaN x = false) (hy : isNaN y = false) (h : ¬y < x) : x ≤ y := by
  rcases le_total hx hy with hle | hge
  · exact hle
  · by_cases hle : x ≤ y
    · exact hle
    · exact absurd (lt_iff_le_not_ge.mpr ⟨hge, hle⟩) h

theorem lt_of_le_of_lt (hxy : x ≤ y) (hyz : y < z) : x < z := by
  refine lt_iff_le_not_ge.mpr ⟨LawfulOrder.le_trans hxy (le_of_lt hyz), ?_⟩
  exact fun hzx => not_ge_of_lt hyz (LawfulOrder.le_trans hzx hxy)

theorem lt_of_not_ge (hx : isNaN x = false) (hy : isNaN y = false) (h : ¬y ≤ x) : x < y := by
  rcases le_total hx hy with hle | hge
  · exact lt_iff_le_not_ge.mpr ⟨hle, h⟩
  · exact absurd hge h

end Univariate.Scalar
