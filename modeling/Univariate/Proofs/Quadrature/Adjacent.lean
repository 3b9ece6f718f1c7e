import Mathlib.Algebra.Group.Even
import Mathlib.Tactic.FieldSimp
import Univariate.Proofs.Quadrature.Weights

/-!
# Adjacent intervals

An interval is cut at a point of its grid. The pieces on both sides are the pieces of the whole, so
every rule adds; Simpson's rule does so where the cut does not go through one of its own pieces.
-/

namespace Univariate.Quadrature

open Exact (rational)

variable {E : Elementary} {f : Exact E → Exact E} {a b : ℚ} {p q : ℕ}

/-- The point that `p` of `p + q` pieces lie below. -/
def splitPoint (a b : ℚ) (p q : ℕ) : ℚ := a + p * (b - a) / (p + q : ℕ)

/-- The value on the whole interval is the sum of the values on both sides of the cut. -/
def Rule.Adds (rule : Rule) (f : Exact E → Exact E) (a b : ℚ) (p q : ℕ) : Prop :=
  ∃ u v, rule.Gives f a (splitPoint a b p q) p u ∧ rule.Gives f (splitPoint a b p q) b q v ∧
    rule.Gives f a b (p + q) (u + v)

/-! ### Sums -/

theorem grid_add (f : Exact E → Exact E) (a h : ℚ) (i j : ℕ) :
    grid f a h (i + j) = grid f (a + i * h) h j := by
  have hpoint : a + (i + j : ℕ) * h = a + i * h + j * h := by
    push_cast
    ring
  rw [grid, hpoint, grid]

theorem placeSum_add (f : Exact E → Exact E) (a h : ℚ) (place p q : ℕ) :
    placeSum f a h place (p + q) =
      placeSum f a h place p + placeSum f (a + (2 * p : ℕ) * h) h place q := by
  rw [placeSum, Finset.sum_range_add, mul_add]
  refine congrArg (placeSum f a h place p + 2 * h * ·) (Finset.sum_congr rfl fun k _ => ?_)
  have hindex : place + 2 * (p + k) = 2 * p + (place + 2 * k) := by ring
  rw [hindex, grid_add]

theorem Weights.total_add (w : Weights) (f : Exact E → Exact E) (a h : ℚ) (p q : ℕ) :
    w.total f a h (p + q) = w.total f a h p + w.total f (a + (2 * p : ℕ) * h) h q := by
  simp only [total, placeSum_add]
  ring

/-! ### The cut -/

theorem splitPoint_sub (a b : ℚ) (p q : ℕ) :
    splitPoint a b p q - a = p * ((b - a) / (p + q : ℕ)) := by
  rw [splitPoint, add_sub_cancel_left, mul_div]

theorem sub_splitPoint (a b : ℚ) (hp : 0 < p) :
    b - splitPoint a b p q = q * ((b - a) / (p + q : ℕ)) := by
  have hcount : ((p + q : ℕ) : ℚ) ≠ 0 := Nat.cast_ne_zero.mpr (by omega)
  rw [splitPoint]
  field_simp
  push_cast
  ring

theorem splitPoint_mem (hab : a < b) (hp : 0 < p) (hq : 0 < q) :
    splitPoint a b p q ∈ Set.Ioo a b := by
  have hcount : (0 : ℚ) < (p + q : ℕ) := Nat.cast_pos.mpr (by omega)
  have hwidth := div_pos (sub_pos.mpr hab) hcount
  constructor
  · rw [← sub_pos, splitPoint_sub]
    exact mul_pos (Nat.cast_pos.mpr hp) hwidth
  · rw [← sub_pos, sub_splitPoint a b hp]
    exact mul_pos (Nat.cast_pos.mpr hq) hwidth

/-- Pieces of one width: a rule that joins `c` of the given pieces does so on both sides. -/
theorem halfWidth_eq_of_sub_eq {m m' : ℚ} {c count whole : ℕ} (hc : 0 < c) (hcount : 0 < count)
    (hm : m' - m = (c * count : ℕ) * ((b - a) / (c * whole : ℕ))) :
    halfWidth m m' count = halfWidth a b whole := by
  have hc' : (c : ℚ) ≠ 0 := Nat.cast_ne_zero.mpr hc.ne'
  have hcount' : (count : ℚ) ≠ 0 := Nat.cast_ne_zero.mpr hcount.ne'
  rw [halfWidth, halfWidth, hm]
  push_cast
  field_simp

theorem Rule.adds_of_pieces {rule : Rule} {w : Weights} (hw : rule.weights? = some w)
    (hab : a < b) (hp : 0 < p) (hq : 0 < q) {c : ℕ}
    (hpieces : ∀ count ∈ [p, q, p + q], count = c * rule.pieces count)
    (hends : rule ∈ Rule.closed → Scalar.isFinite (f (rational a)) = true ∧
      Scalar.isFinite (f (rational (splitPoint a b p q))) = true ∧
        Scalar.isFinite (f (rational b)) = true) :
    rule.Adds f a b p q := by
  obtain ⟨hlower, hupper⟩ := splitPoint_mem hab hp hq
  have hP : p = c * rule.pieces p := hpieces p (by simp)
  have hQ : q = c * rule.pieces q := hpieces q (by simp)
  have hPQ : p + q = c * rule.pieces (p + q) := hpieces (p + q) (by simp)
  have hc : 0 < c := Nat.pos_of_mul_pos_right (hP ▸ hp)
  have hposP : 0 < rule.pieces p := Nat.pos_of_mul_pos_left (hP ▸ hp)
  have hposQ : 0 < rule.pieces q := Nat.pos_of_mul_pos_left (hQ ▸ hq)
  have hsum : rule.pieces (p + q) = rule.pieces p + rule.pieces q := by
    apply Nat.eq_of_mul_eq_mul_left hc
    rw [Nat.mul_add, ← hP, ← hQ, ← hPQ]
  have hbelow : halfWidth a (splitPoint a b p q) (rule.pieces p) =
      halfWidth a b (rule.pieces (p + q)) := by
    apply halfWidth_eq_of_sub_eq hc hposP
    rw [← hP, ← hPQ, splitPoint_sub]
  have habove : halfWidth (splitPoint a b p q) b (rule.pieces q) =
      halfWidth a b (rule.pieces (p + q)) := by
    apply halfWidth_eq_of_sub_eq hc hposQ
    rw [← hQ, ← hPQ, sub_splitPoint a b hp]
  have hcut : splitPoint a b p q =
      a + (2 * rule.pieces p : ℕ) * halfWidth a b (rule.pieces (p + q)) := by
    rw [← hbelow, add_mul_halfWidth a _ hposP]
  refine ⟨_, _, Rule.gives_total hw hlower hposP fun h => ⟨(hends h).1, (hends h).2.1⟩,
    Rule.gives_total hw hupper hposQ fun h => (hends h).2, ?_⟩
  have hwhole := Rule.gives_total hw hab (hsum ▸ Nat.add_pos_left hposP _) fun h =>
    ⟨(hends h).1, (hends h).2.2⟩
  rw [hsum, w.total_add, ← hsum, ← hcut] at hwhole
  rwa [hbelow, habove]

/-- **Integrals add over adjacent intervals.** Riemann sums leave samples out on both sides alike,
and a rule that needs finite values at its limits needs one at the cut as well. -/
theorem adds_of_cut (f : Exact E → Exact E) (hab : a < b) (hp : 0 < p) (hq : 0 < q) :
    (∀ rule ∈ Rule.sums, rule.Adds f a b p q) ∧
      (Scalar.isFinite (f (rational a)) = true →
        Scalar.isFinite (f (rational (splitPoint a b p q))) = true →
          Scalar.isFinite (f (rational b)) = true →
            Rule.trapezoid.Adds f a b p q ∧
              (Even p → Even q → Rule.simpson.Adds f a b p q)) := by
  constructor
  · intro rule hrule
    simp only [Rule.sums, List.mem_cons, List.not_mem_nil, or_false] at hrule
    rcases hrule with rfl | rfl | rfl
    all_goals
      refine Rule.adds_of_pieces rfl hab hp hq (c := 1) (fun count _ => ?_) fun h => ?_
      · exact (Nat.one_mul count).symm
      · exact absurd h (by decide)
  · intro ha hm hb
    refine ⟨Rule.adds_of_pieces rfl hab hp hq (c := 1) (fun count _ => ?_)
      fun _ => ⟨ha, hm, hb⟩, ?_⟩
    · exact (Nat.one_mul count).symm
    · intro hpeven hqeven
      have heven : ∀ count ∈ [p, q, p + q], Even count := by
        simpa using ⟨hpeven, hqeven, hpeven.add hqeven⟩
      refine Rule.adds_of_pieces rfl hab hp hq (c := 2) (fun count hcount => ?_)
        fun _ => ⟨ha, hm, hb⟩
      have hcount := heven count hcount
      rw [Rule.pieces, evenPieces_of_even hcount, Nat.two_mul_div_two_of_even hcount]

/-- A pole on the grid of the lower interval. -/
theorem adds_of_cut_reciprocal :
    splitPoint 0 6 2 4 = 2 ∧
      ∀ rule ∈ Rule.classic, rule.Adds (fun x : Exact .rationalPart => 1 / (x - 1)) 0 6 2 4 := by
  have hcut : splitPoint 0 6 2 4 = 2 := by norm_num [splitPoint]
  obtain ⟨hsums, hclosed⟩ := adds_of_cut (fun x : Exact .rationalPart => 1 / (x - 1))
    (by norm_num : (0 : ℚ) < 6) (by norm_num : 0 < 2) (by norm_num : 0 < 4)
  obtain ⟨htrapezoid, hsimpson⟩ := hclosed (isFinite_one_div_sub_one (by norm_num))
    (isFinite_one_div_sub_one (by norm_num [hcut])) (isFinite_one_div_sub_one (by norm_num))
  refine ⟨hcut, fun rule hrule => ?_⟩
  rw [Rule.classic_eq, List.mem_append] at hrule
  rcases hrule with hrule | hrule
  · exact hsums rule hrule
  · simp only [Rule.closed, List.mem_cons, List.not_mem_nil, or_false] at hrule
    rcases hrule with rfl | rfl
    · exact htrapezoid
    · exact hsimpson (by decide) (by decide)

end Univariate.Quadrature
