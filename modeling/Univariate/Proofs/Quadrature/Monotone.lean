import Mathlib.Algebra.Order.BigOperators.Group.Finset
import Mathlib.Tactic.Positivity
import Univariate.Proofs.Quadrature.Weights

/-!
# Monotone functions

Along a grid on which the values do not fall, cutting the pieces raises the sum over their lower
ends and lowers the sum over their upper ends. Two grids have a refinement in common, so every lower
sum is at most every upper sum.
-/

namespace Univariate.Quadrature

open Exact (rational finitePart)

variable {E : Elementary} {f : Exact E → Exact E} {a b h : ℚ} {n m : ℕ}

/-! ### Refinement -/

/-- Window by window. -/
theorem sum_range_mul (g : ℕ → ℚ) (n m : ℕ) :
    ∑ i ∈ Finset.range (n * m), g i =
      ∑ k ∈ Finset.range n, ∑ j ∈ Finset.range m, g (k * m + j) := by
  induction n with
  | zero => rw [Nat.zero_mul, Finset.sum_range_zero, Finset.sum_range_zero]
  | succ n ih => rw [Nat.succ_mul, Finset.sum_range_add, ih, Finset.sum_range_succ]

/-- A wide piece counts its value once for every narrow piece in it. -/
theorem placeSum_mul (f : Exact E → Exact E) (a h : ℚ) (place n m : ℕ) :
    placeSum f a (m * h) place n =
      2 * h * ∑ k ∈ Finset.range n, ∑ _j ∈ Finset.range m, grid f a h (m * (place + 2 * k)) := by
  simp only [placeSum, grid_mul, Finset.sum_const, Finset.card_range, nsmul_eq_mul,
    ← Finset.mul_sum]
  ring

theorem placeSum_windows (f : Exact E → Exact E) (a h : ℚ) (place n m : ℕ) :
    placeSum f a h place (n * m) =
      2 * h * ∑ k ∈ Finset.range n, ∑ j ∈ Finset.range m,
        grid f a h (place + 2 * (k * m + j)) := by
  rw [placeSum, sum_range_mul fun i => grid f a h (place + 2 * i)]

/-- The values do not fall from one end of so many pieces to the other. -/
def Rises (f : Exact E → Exact E) (a h : ℚ) (count : ℕ) : Prop :=
  MonotoneOn (grid f a h) (Set.Iic (2 * count))

namespace Rises

theorem placeSum_le (hrises : Rises f a h n) (hh : 0 ≤ h) {place place' : ℕ}
    (hplace : place ≤ place') (hplace' : place' ≤ 2) :
    placeSum f a h place n ≤ placeSum f a h place' n := by
  refine mul_le_mul_of_nonneg_left (Finset.sum_le_sum fun k hk => ?_) (by positivity)
  have hk' := Finset.mem_range.mp hk
  exact hrises (Set.mem_Iic.mpr (by omega)) (Set.mem_Iic.mpr (by omega)) (by omega)

/-- Every narrow piece lies between the ends of the wide piece that it is in. -/
theorem grid_window (hrises : Rises f a h (n * m)) {k j : ℕ} (hk : k < n) (hj : j < m) :
    grid f a h (m * (0 + 2 * k)) ≤ grid f a h (0 + 2 * (k * m + j)) ∧
      grid f a h (2 + 2 * (k * m + j)) ≤ grid f a h (m * (2 + 2 * k)) := by
  have hwindow := Nat.mul_le_mul_right m (Nat.succ_le_of_lt hk)
  rw [Nat.succ_mul] at hwindow
  have hlower : m * (0 + 2 * k) = 2 * (k * m) := by ring
  have hupper : m * (2 + 2 * k) = 2 * (k * m + m) := by ring
  rw [hlower, hupper]
  constructor <;>
    exact hrises (Set.mem_Iic.mpr (by omega)) (Set.mem_Iic.mpr (by omega)) (by omega)

section

variable (hrises : Rises f a h (n * m)) (hh : 0 ≤ h)
include hrises hh

theorem placeSum_lower_le : placeSum f a (m * h) 0 n ≤ placeSum f a h 0 (n * m) := by
  rw [placeSum_mul, placeSum_windows]
  refine mul_le_mul_of_nonneg_left ?_ (by positivity)
  refine Finset.sum_le_sum fun k hk => Finset.sum_le_sum fun j hj => ?_
  exact (hrises.grid_window (Finset.mem_range.mp hk) (Finset.mem_range.mp hj)).1

theorem le_placeSum_upper : placeSum f a h 2 (n * m) ≤ placeSum f a (m * h) 2 n := by
  rw [placeSum_mul, placeSum_windows]
  refine mul_le_mul_of_nonneg_left ?_ (by positivity)
  refine Finset.sum_le_sum fun k hk => Finset.sum_le_sum fun j hj => ?_
  exact (hrises.grid_window (Finset.mem_range.mp hk) (Finset.mem_range.mp hj)).2

end

end Rises

/-! ### Functions that do not fall between the limits -/

/-- The sum over lower ends of one grid is at most the sum over upper ends of another, and the other
rules lie between the two sums of their own grid. -/
structure Bracketed (f : Exact E → Exact E) (a b : ℚ) (n m : ℕ) : Prop where
  ends : ∃ left right, Rule.left.Gives f a b n left ∧ Rule.right.Gives f a b m right ∧
    left ≤ right
  between : ∃ left midpoint trapezoid right,
    Rule.left.Gives f a b n left ∧ Rule.midpoint.Gives f a b n midpoint ∧
      Rule.trapezoid.Gives f a b n trapezoid ∧ Rule.right.Gives f a b n right ∧
        midpoint ∈ Set.Icc left right ∧ trapezoid ∈ Set.Icc left right

theorem halfWidth_pos (hab : a < b) (hn : 0 < n) : 0 < halfWidth a b n := by
  have hcount : (0 : ℚ) < (2 * n : ℕ) := Nat.cast_pos.mpr (by omega)
  exact div_pos (sub_pos.mpr hab) hcount

theorem mul_halfWidth_mul (a b : ℚ) (n : ℕ) (hm : 0 < m) :
    m * halfWidth a b (n * m) = halfWidth a b n := by
  have hm' : (m : ℚ) ≠ 0 := Nat.cast_ne_zero.mpr hm.ne'
  rw [halfWidth, halfWidth, ← Nat.mul_assoc, Nat.cast_mul (2 * n), mul_comm ((2 * n : ℕ) : ℚ),
    mul_div, mul_div_mul_left _ _ hm']

section

variable {g : ℚ → ℚ} (hf : ∀ x ∈ Set.Icc a b, f (rational x) = rational (g x))
  (hg : MonotoneOn g (Set.Icc a b)) (hab : a < b)
include hf hg hab

theorem rises_of_monotoneOn (hn : 0 < n) : Rises f a (halfWidth a b n) n := by
  have hh := halfWidth_pos hab hn
  have hstep : ∀ i j : ℕ, i ≤ j → a + i * halfWidth a b n ≤ a + j * halfWidth a b n :=
    fun i j hij => by gcongr
  have hmem : ∀ i ∈ Set.Iic (2 * n), a + i * halfWidth a b n ∈ Set.Icc a b := by
    intro i hi
    refine ⟨?_, (hstep i (2 * n) hi).trans_eq (add_mul_halfWidth a b hn)⟩
    have hpos : 0 ≤ i * halfWidth a b n := by positivity
    linarith
  intro i hi j hj hij
  rw [grid, grid, hf _ (hmem i hi), hf _ (hmem j hj)]
  exact hg (hmem i hi) (hmem j hj) (hstep i j hij)

/-- The lower sum goes up to the refinement that both grids have, and the upper sum comes down to
it. -/
theorem placeSum_lower_le_upper (hn : 0 < n) (hm : 0 < m) :
    placeSum f a (halfWidth a b n) 0 n ≤ placeSum f a (halfWidth a b m) 2 m := by
  have hrises := rises_of_monotoneOn hf hg hab (Nat.mul_pos hn hm)
  have hh := (halfWidth_pos hab (Nat.mul_pos hn hm)).le
  calc placeSum f a (halfWidth a b n) 0 n
      = placeSum f a (m * halfWidth a b (n * m)) 0 n := by rw [mul_halfWidth_mul a b n hm]
    _ ≤ placeSum f a (halfWidth a b (n * m)) 0 (n * m) := hrises.placeSum_lower_le hh
    _ ≤ placeSum f a (halfWidth a b (n * m)) 2 (n * m) :=
        hrises.placeSum_le hh (by omega) le_rfl
    _ = placeSum f a (halfWidth a b (m * n)) 2 (m * n) := by rw [Nat.mul_comm n m]
    _ ≤ placeSum f a (n * halfWidth a b (m * n)) 2 m :=
        (rises_of_monotoneOn hf hg hab (Nat.mul_pos hm hn)).le_placeSum_upper
          (halfWidth_pos hab (Nat.mul_pos hm hn)).le
    _ = placeSum f a (halfWidth a b m) 2 m := by rw [mul_halfWidth_mul a b m hn]

/-- **Sums of a monotone function**, over two grids that have nothing to do with each other. -/
theorem bracketed_of_monotoneOn (hn : 0 < n) (hm : 0 < m) : Bracketed f a b n m := by
  have hends : ∀ rule ∈ Rule.closed, Scalar.isFinite (f (rational a)) = true ∧
      Scalar.isFinite (f (rational b)) = true := by
    intro _ _
    rw [hf a ⟨le_rfl, hab.le⟩, hf b ⟨hab.le, le_rfl⟩]
    exact ⟨rfl, rfl⟩
  constructor
  case ends =>
    refine ⟨_, _, Rule.gives_total rfl hab hn (hends _), Rule.gives_total rfl hab hm (hends _),
      ?_⟩
    simp only [Weights.total, Rule.pieces, one_mul, zero_mul, add_zero, zero_add]
    exact placeSum_lower_le_upper hf hg hab hn hm
  case between =>
    refine ⟨_, _, _, _, Rule.gives_total rfl hab hn (hends _),
      Rule.gives_total rfl hab hn (hends _), Rule.gives_total rfl hab hn (hends _),
      Rule.gives_total rfl hab hn (hends _), ?_⟩
    have hrises := rises_of_monotoneOn hf hg hab hn
    have hh := (halfWidth_pos hab hn).le
    have hlower : placeSum f a (halfWidth a b n) 0 n ≤ placeSum f a (halfWidth a b n) 1 n :=
      hrises.placeSum_le hh (by omega) (by omega)
    have hupper : placeSum f a (halfWidth a b n) 1 n ≤ placeSum f a (halfWidth a b n) 2 n :=
      hrises.placeSum_le hh (by omega) le_rfl
    simp only [Weights.total, Rule.pieces, one_mul, zero_mul, add_zero, zero_add, Set.mem_Icc]
    refine ⟨⟨hlower, hupper⟩, ?_, ?_⟩ <;> linarith

end

/-- A jump between the limits, three pieces, and two. -/
theorem bracketed_jump :
    Bracketed (fun x : Exact .rationalPart => if x < 0 then 0 else 1) (-1) 2 3 2 := by
  have hjump : ∀ x ∈ Set.Icc (-1 : ℚ) 2,
      (if (rational x : Exact .rationalPart) < 0 then 0 else 1 : Exact .rationalPart) =
        rational (if x < 0 then 0 else 1) := by
    intro x _
    simp only [Exact.ofNat_eq, Exact.rational_lt_rational, Nat.cast_zero, Nat.cast_one]
    split <;> rfl
  have hmonotone : MonotoneOn (fun x : ℚ => if x < 0 then (0 : ℚ) else 1) (Set.Icc (-1) 2) := by
    intro x _ y _ hxy
    dsimp only
    split_ifs <;> linarith
  exact bracketed_of_monotoneOn hjump hmonotone (by norm_num) (by norm_num) (by norm_num)

end Univariate.Quadrature
