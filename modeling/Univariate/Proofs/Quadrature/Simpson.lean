import Mathlib.Algebra.BigOperators.Intervals
import Mathlib.Algebra.BigOperators.Ring.Finset
import Mathlib.Tactic.Ring
import Univariate.Proofs.Quadrature.Composite

/-!
# Simpson's rule

Simpson's rule is a sum over panels, each of two pieces. It integrates a cubic over one panel without
error, and the antiderivatives of neighbouring panels cancel. There are no panels when the number of
pieces is the last of the 64-bit numbers.
-/

namespace Univariate.Quadrature

open Exact (rational finitePart)

/-- Three neighbouring points with the weights of Simpson's rule. -/
def panel (g : ℕ → ℚ) (k : ℕ) : ℚ := g (2 * k) + 4 * g (1 + 2 * k) + g (2 + 2 * k)

/-- An even point inside belongs to two panels, and an odd one to the panel in the middle of which it
lies. -/
theorem sum_panel (g : ℕ → ℚ) {count : ℕ} (hcount : 0 < count) :
    ∑ k ∈ Finset.range count, panel g k =
      g 0 + g (2 * count) + 4 * ∑ k ∈ Finset.range count, g (1 + 2 * k) +
        2 * ∑ k ∈ Finset.range (count - 1), g (2 + 2 * k) := by
  obtain ⟨inside, rfl⟩ : ∃ inside, count = inside + 1 := ⟨count - 1, by omega⟩
  have hfirst : ∑ k ∈ Finset.range (inside + 1), g (2 * k) =
      ∑ k ∈ Finset.range inside, g (2 + 2 * k) + g 0 := by
    rw [Finset.sum_range_succ']
    simp only [Nat.mul_succ, Nat.add_comm, Nat.mul_zero]
  have hlast : ∑ k ∈ Finset.range (inside + 1), g (2 + 2 * k) =
      ∑ k ∈ Finset.range inside, g (2 + 2 * k) + g (2 * (inside + 1)) := by
    rw [Finset.sum_range_succ, Nat.mul_succ, Nat.add_comm 2 (2 * inside)]
  simp only [panel, Finset.sum_add_distrib, ← Finset.mul_sum, Nat.add_sub_cancel]
  rw [hfirst, hlast]
  ring

/-! ### The number of pieces -/

section

variable {n : ℕ}

theorem evenPieces_of_even (hn : Even n) : evenPieces n = n := by
  rw [evenPieces, Nat.even_iff.mp hn]
  rfl

theorem evenPieces_of_odd (hn : Odd n) : evenPieces n = (n + 1) % UInt64.size := by
  rw [evenPieces, Nat.odd_iff.mp hn]
  rfl

theorem even_evenPieces (n : ℕ) : Even (evenPieces n) := by
  obtain hn | hn := Nat.even_or_odd n
  · rwa [evenPieces_of_even hn]
  · have hsize : 2 ∣ UInt64.size := by decide
    rw [evenPieces_of_odd hn, even_iff_two_dvd, Nat.dvd_mod_iff hsize, ← even_iff_two_dvd]
    exact hn.add_one

/-- Below the last word the rule takes half as many panels, rounded up. -/
theorem evenPieces_div_two (hn : n + 1 < UInt64.size) : evenPieces n / 2 = (n + 1) / 2 := by
  obtain heven | hodd := Nat.even_or_odd n
  · rw [evenPieces_of_even heven]
    obtain ⟨half, rfl⟩ := heven
    omega
  · rw [evenPieces_of_odd hodd, Nat.mod_eq_of_lt hn]

theorem evenPieces_last (hn : n + 1 = UInt64.size) : evenPieces n = 0 := by
  have hodd : Odd n := by
    have hsize : Even (n + 1) := hn ▸ by decide
    exact Nat.not_even_iff_odd.mp (Nat.even_add_one.mp hsize)
  rw [evenPieces_of_odd hodd, hn, Nat.mod_self]

end

/-! ### The rule -/

section

variable {E : Elementary} {f : Exact E → Exact E} {a b : ℚ} {n : ℕ}
  (ha : Scalar.isFinite (f (rational a)) = true) (hb : Scalar.isFinite (f (rational b)) = true)
include ha hb

/-- **Simpson's rule by panels**, of which there is one for every two pieces. -/
theorem simpson_eq_sum_panel {count : ℕ} {h : ℚ} (hcount : count = evenPieces n / 2)
    (hpos : 0 < count) (hwidth : h = (b - a) / (2 * count : ℕ)) :
    simpson f (rational a) (rational b) n =
      .ok (rational (h / 3 * ∑ k ∈ Finset.range count, panel (grid f a h) k)) := by
  have heven : evenPieces n = 2 * count := by
    rw [hcount, Nat.two_mul_div_two_of_even (even_evenPieces n)]
  have hpieces : 0 < 2 * count := by omega
  have hthree : ((3 : ℕ) : ℚ) ≠ 0 := by norm_num
  rw [simpson, endpoints_rational ha hb hpieces, heven, ← hwidth]
  simp only [Except.map, pieceWidth_rational a b hpieces, ← hwidth, finiteSum_samples_range',
    Exact.ofNat_eq, Exact.rational_add, Exact.rational_mul, Exact.rational_div _ hthree,
    Nat.mul_div_cancel_left count Nat.two_pos]
  rw [sum_panel _ hpos]
  norm_num

theorem simpson_eq_notFinite (hzero : evenPieces n = 0) :
    simpson f (rational a) (rational b) n = .ok .notFinite := by
  have hwidth : pieceWidth (rational a : Exact E) (rational b) 0 = .notFinite := by
    rw [pieceWidth, Exact.rational_sub, Exact.scalarOfNat_eq, Nat.cast_zero]
    rfl
  rw [simpson, endpoints_eq_ok ha hb, hzero]
  simp only [Except.map, hwidth]
  rfl

/-- After the last word there are no pieces left, and the interval is divided by zero. -/
theorem integrate_simpson_last (hab : a < b) (hlast : n + 1 = UInt64.size) :
    integrate .simpson f (rational a) (rational b) n = .ok .notFinite := by
  have hn : 0 < n := by
    have hsize : 1 < UInt64.size := by decide
    omega
  calc
    integrate .simpson f (rational a) (rational b) n =
        simpson f (rational a) (rational b) n := integrate_rational .simpson f hab hn
    _ = .ok .notFinite := simpson_eq_notFinite ha hb (evenPieces_last hlast)

end

/-! ### Cubics -/

variable (p q r s : ℚ)

def cubic (x : ℚ) : ℚ := p * x ^ 3 + q * x ^ 2 + r * x + s

/-- The antiderivative that is zero at zero. -/
def cubicPrimitive (x : ℚ) : ℚ := p * x ^ 4 / 4 + q * x ^ 3 / 3 + r * x ^ 2 / 2 + s * x

theorem panel_cubic (a h : ℚ) (k : ℕ) :
    h / 3 * panel (fun i => cubic p q r s (a + i * h)) k =
      cubicPrimitive p q r s (a + (2 * (k + 1) : ℕ) * h) -
        cubicPrimitive p q r s (a + (2 * k : ℕ) * h) := by
  simp only [panel, cubic, cubicPrimitive]
  push_cast
  ring

theorem sum_panel_cubic (a h : ℚ) (count : ℕ) :
    h / 3 * ∑ k ∈ Finset.range count, panel (fun i => cubic p q r s (a + i * h)) k =
      cubicPrimitive p q r s (a + (2 * count : ℕ) * h) - cubicPrimitive p q r s a := by
  rw [Finset.mul_sum, Finset.sum_congr rfl fun k _ => panel_cubic p q r s a h k,
    Finset.sum_range_sub fun k => cubicPrimitive p q r s (a + (2 * k : ℕ) * h)]
  simp

section

variable {E : Elementary} {f : Exact E → Exact E} {a b : ℚ} {n : ℕ}

theorem integrate_simpson_of_cubic (hf : ∀ x, f (rational x) = rational (cubic p q r s x))
    (hab : a < b) (hn : 0 < n) (hnext : n + 1 < UInt64.size) :
    integrate .simpson f (rational a) (rational b) n =
      .ok (rational (cubicPrimitive p q r s b - cubicPrimitive p q r s a)) := by
  have hfinite : ∀ x, Scalar.isFinite (f (rational x)) = true := fun x => by rw [hf]; rfl
  have hgrid : ∀ h, grid f a h = fun i : ℕ => cubic p q r s (a + i * h) := fun h => by
    funext i
    rw [grid, hf]
    rfl
  have hpos : 0 < (n + 1) / 2 := by omega
  calc
    integrate .simpson f (rational a) (rational b) n =
        simpson f (rational a) (rational b) n := integrate_rational .simpson f hab hn
    _ = .ok (rational _) :=
      simpson_eq_sum_panel (hfinite a) (hfinite b) (evenPieces_div_two hnext).symm hpos rfl
    _ = .ok (rational (cubicPrimitive p q r s b - cubicPrimitive p q r s a)) := by
      rw [hgrid, sum_panel_cubic, add_mul_pieceWidth a b (by omega)]

/-- **Simpson's rule is exact for cubics**, whatever the number of pieces, as long as the number
above it still fits 64 bits. -/
theorem integrate_simpson_of_cubic_iff
    (hf : ∀ x, f (rational x) = rational (p * x ^ 3 + q * x ^ 2 + r * x + s)) (hab : a < b)
    (hn : 0 < n) (hword : n < UInt64.size) :
    integrate .simpson f (rational a) (rational b) n = .ok (rational
      (p * (b ^ 4 - a ^ 4) / 4 + q * (b ^ 3 - a ^ 3) / 3 + r * (b ^ 2 - a ^ 2) / 2 +
        s * (b - a))) ↔ n + 1 < UInt64.size := by
  constructor
  · intro hexact
    apply lt_of_le_of_ne hword
    intro hlast
    rw [integrate_simpson_last (by rw [hf]; rfl) (by rw [hf]; rfl) hab hlast] at hexact
    cases hexact
  · intro hnext
    rw [integrate_simpson_of_cubic p q r s hf hab hn hnext]
    congr 2
    simp only [cubicPrimitive]
    ring

end

/-- An odd number of pieces. -/
theorem integrate_simpson_of_cubic_three :
    integrate .simpson (fun x : Exact .rationalPart => x * x * x + x) (.rational 0) (.rational 2) 3 =
      .ok (.rational 6) := by
  have hcubic : ∀ x : ℚ, (rational x * rational x * rational x + rational x : Exact .rationalPart) =
      rational (1 * x ^ 3 + 0 * x ^ 2 + 1 * x + 0) := fun x => by
    rw [Exact.rational_mul, Exact.rational_mul, Exact.rational_add]
    congr 1
    ring
  rw [(integrate_simpson_of_cubic_iff 1 0 1 0 hcubic (by norm_num) (by norm_num) (by decide)).mpr
    (by decide)]
  norm_num

/-- The integral of `x` from 0 to 1, with as many pieces as 64 bits can say. -/
theorem integrate_simpson_last_word :
    integrate .simpson (fun x : Exact .rationalPart => x) (.rational 0) (.rational 1)
        18446744073709551615 = .ok .notFinite ∧
      integrate .simpson (fun x : Exact .rationalPart => x) (.rational 0) (.rational 1)
        18446744073709551615 ≠ .ok (.rational (1 / 2)) := by
  have hlast : integrate .simpson (fun x : Exact .rationalPart => x) (.rational 0) (.rational 1)
      18446744073709551615 = .ok .notFinite :=
    integrate_simpson_last rfl rfl (by norm_num) rfl
  refine ⟨hlast, ?_⟩
  rw [hlast]
  exact nofun

end Univariate.Quadrature
