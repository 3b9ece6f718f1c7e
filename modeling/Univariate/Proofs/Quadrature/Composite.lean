import Mathlib.Algebra.BigOperators.Group.Finset.Basic
import Univariate.Proofs.Quadrature.Summary
import Univariate.Proofs.Scalar.Exact

/-!
# Composite rules in exact arithmetic

The rules as rational sums over a grid. A sample that is not finite counts as zero there, because a
rule leaves it out.
-/

namespace Univariate

variable {E : Elementary}

/-- What a value adds to a sum over the finite ones. -/
def Exact.finitePart : Exact E → ℚ
  | rational q => q
  | notFinite => 0

namespace Quadrature

open Exact (rational finitePart)

theorem finiteSum_eq (values : List (Exact E)) :
    finiteSum values = rational (values.map finitePart).sum := by
  obtain ⟨finite, hfinite, hsum⟩ : ∃ finite : List ℚ,
      values.filter Scalar.isFinite = finite.map rational ∧
        finite.sum = (values.map finitePart).sum := by
    induction values with
    | nil => exact ⟨[], rfl, rfl⟩
    | cons value values ih =>
        obtain ⟨finite, hfinite, hsum⟩ := ih
        cases value with
        | rational q =>
            refine ⟨q :: finite, ?_, ?_⟩
            · rw [List.filter_cons_of_pos (Exact.isFinite_rational q), hfinite, List.map_cons]
            · rw [List.sum_cons, hsum, List.map_cons, List.sum_cons, finitePart]
        | notFinite =>
            refine ⟨finite, ?_, ?_⟩
            · rw [List.filter_cons_of_neg Bool.false_ne_true, hfinite]
            · rw [hsum, List.map_cons, List.sum_cons, finitePart, zero_add]
  rw [finiteSum, hfinite, Exact.sum_map_rational, hsum]

theorem finiteSum_map_range' (g : ℕ → Exact E) (start count step : ℕ) :
    finiteSum ((List.range' start count step).map g) =
      rational (∑ k ∈ Finset.range count, finitePart (g (start + step * k))) := by
  rw [finiteSum_eq, List.map_map]
  congr 1
  induction count with
  | zero => rfl
  | succ count ih =>
      rw [List.range'_concat, List.map_append, List.sum_append, ih, Finset.sum_range_succ,
        List.map_singleton, List.sum_singleton, Function.comp_apply]

/-! ### The grid -/

variable {f : Exact E → Exact E} {a b : ℚ} {n : ℕ}

/-- The finite part at the point that lies so many steps above `a`. -/
def grid (f : Exact E → Exact E) (a h : ℚ) (i : ℕ) : ℚ := finitePart (f (rational (a + i * h)))

theorem finiteSum_samples_range' (f : Exact E → Exact E) (a h : ℚ) (start count step : ℕ) :
    finiteSum (samples f (rational a) (rational h) (List.range' start count step)) =
      rational (∑ k ∈ Finset.range count, grid f a h (start + step * k)) := by
  rw [samples, finiteSum_map_range']
  simp only [Exact.scalarOfNat_eq, Exact.rational_mul, Exact.rational_add, grid]

theorem pieceWidth_rational (a b : ℚ) (hn : 0 < n) :
    pieceWidth (rational a : Exact E) (rational b) n = rational ((b - a) / n) := by
  rw [pieceWidth, Exact.rational_sub, Exact.scalarOfNat_eq,
    Exact.rational_div _ (Nat.cast_ne_zero.mpr hn.ne')]

theorem grid_zero (f : Exact E → Exact E) (a h : ℚ) :
    grid f a h 0 = finitePart (f (rational a)) := by
  rw [grid, Nat.cast_zero, zero_mul, add_zero]

/-- So many pieces lead from the lower limit to the upper one. -/
theorem add_mul_pieceWidth (a b : ℚ) (hn : 0 < n) : a + n * ((b - a) / n) = b := by
  rw [mul_div_cancel₀ _ (Nat.cast_ne_zero.mpr hn.ne'), add_sub_cancel]

theorem grid_last (f : Exact E → Exact E) (a b : ℚ) (hn : 0 < n) :
    grid f a ((b - a) / n) n = finitePart (f (rational b)) := by
  rw [grid, add_mul_pieceWidth a b hn]

/-! ### Limits -/

theorem fault?_eq_none (hab : a < b) (hn : 0 < n) :
    fault? (rational a : Exact E) (rational b) n = none := by
  have hpieces : (n == 0) = false := by simpa using hn.ne'
  have hle : decide ((rational b : Exact E) ≤ rational a) = false := by simpa using hab
  rw [fault?, hpieces, Exact.isFinite_rational, Exact.isFinite_rational, hle]
  rfl

theorem integrate_rational (rule : Rule) (f : Exact E → Exact E) (hab : a < b) (hn : 0 < n) :
    integrate rule f (rational a) (rational b) n = rule.apply f (rational a) (rational b) n :=
  integrate_of_fault?_eq_none (fault?_eq_none hab hn)

/-- Finite values at both limits are values of the grid. -/
theorem endpoints_rational (ha : Scalar.isFinite (f (rational a)) = true)
    (hb : Scalar.isFinite (f (rational b)) = true) (hn : 0 < n) :
    endpoints f (rational a) (rational b) =
      .ok (rational (grid f a ((b - a) / n) 0), rational (grid f a ((b - a) / n) n)) := by
  obtain ⟨fa, hfa⟩ := Exact.exists_rational_of_isFinite ha
  obtain ⟨fb, hfb⟩ := Exact.exists_rational_of_isFinite hb
  rw [endpoints_eq_ok ha hb, grid_zero, grid_last f a b hn, hfa, hfb]
  rfl

end Quadrature

end Univariate
