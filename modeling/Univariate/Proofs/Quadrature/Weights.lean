import Univariate.Proofs.Quadrature.Simpson

/-!
# Rules by weights

Every rule on evenly spaced samples weighs three sums, which take from each piece the value at its
lower end, in its middle or at its upper end. So the rules are linked by the identities that hold of
their weights, and samples that are left out are left out of both sides.
-/

namespace Univariate.Quadrature

open Exact (rational finitePart)

variable {E : Elementary} {f : Exact E → Exact E} {a b h : ℚ} {n : ℕ}

/-- The rule has this value, and no fault. -/
def Rule.Gives (rule : Rule) (f : Exact E → Exact E) (a b : ℚ) (n : ℕ) (value : ℚ) : Prop :=
  integrate rule f (rational a) (rational b) n = .ok (rational value)

/-- The sum that takes from every piece the value at one place of it: 0 is its lower end, 1 its
middle, and 2 its upper end. Pieces are two steps wide. -/
def placeSum (f : Exact E → Exact E) (a h : ℚ) (place count : ℕ) : ℚ :=
  2 * h * ∑ k ∈ Finset.range count, grid f a h (place + 2 * k)

def halfWidth (a b : ℚ) (count : ℕ) : ℚ := (b - a) / (2 * count : ℕ)

theorem two_mul_halfWidth (a b : ℚ) (count : ℕ) :
    2 * halfWidth a b count = (b - a) / count := by
  rw [halfWidth, Nat.cast_mul, Nat.cast_ofNat, mul_div, mul_div_mul_left _ _ two_ne_zero]

theorem add_mul_halfWidth (a b : ℚ) (hn : 0 < n) : a + (2 * n : ℕ) * halfWidth a b n = b :=
  add_mul_pieceWidth a b (Nat.mul_pos Nat.two_pos hn)

/-- Steps that are so many times as wide. -/
theorem grid_mul (f : Exact E → Exact E) (a h : ℚ) (k i : ℕ) :
    grid f a (k * h) i = grid f a h (k * i) := by
  have hpoint : a + i * (k * h) = a + (k * i : ℕ) * h := by
    push_cast
    ring
  rw [grid, hpoint, grid]

/-! ### Riemann sums -/

def SamplePoint.place : SamplePoint → ℕ
  | left => 0
  | midpoint => 1
  | right => 2

theorem SamplePoint.offset_rational (point : SamplePoint) (k : ℕ) :
    (point.offset k : Exact E) = rational ((point.place + 2 * k : ℕ) / 2) := by
  cases point with
  | left =>
      rw [offset, Exact.scalarOfNat_eq, place]
      push_cast
      congr 1
      ring
  | right =>
      rw [offset, Exact.scalarOfNat_eq, place]
      push_cast
      congr 1
      ring
  | midpoint =>
      rw [offset, Exact.scalarOfNat_eq, Exact.ofScientific_eq, Exact.rational_add, place]
      push_cast
      congr 1
      ring

theorem riemann_eq_placeSum (point : SamplePoint) (f : Exact E → Exact E) (hn : 0 < n) :
    riemann point f (rational a) (rational b) n =
      rational (placeSum f a (halfWidth a b n) point.place n) := by
  have hpoint : ∀ k : ℕ, a + (point.place + 2 * k : ℕ) / 2 * (2 * halfWidth a b n) =
      a + (point.place + 2 * k : ℕ) * halfWidth a b n := fun k => by ring
  rw [riemann, pieceWidth_rational a b hn, ← two_mul_halfWidth, List.range_eq_range']
  simp only [finiteSum_map_range', SamplePoint.offset_rational, Exact.rational_mul,
    Exact.rational_add, Nat.zero_add, Nat.one_mul, hpoint]
  rw [mul_comm]
  rfl

/-! ### Rules that need the values at the limits -/

/-- A lower end is the upper end of the piece before it. -/
theorem sum_ends (g : ℕ → ℚ) (hn : 0 < n) :
    ∑ k ∈ Finset.range n, g (2 * k) + ∑ k ∈ Finset.range n, g (2 + 2 * k) =
      g 0 + g (2 * n) + 2 * ∑ k ∈ Finset.range (n - 1), g (2 + 2 * k) := by
  have hpanels := sum_panel g hn
  simp only [panel, Finset.sum_add_distrib, ← Finset.mul_sum] at hpanels
  linarith

theorem trapezoid_eq_placeSum (ha : Scalar.isFinite (f (rational a)) = true)
    (hb : Scalar.isFinite (f (rational b)) = true) (hn : 0 < n) (hh : h = halfWidth a b n) :
    trapezoid f (rational a) (rational b) n =
      .ok (rational ((placeSum f a h 0 n + placeSum f a h 2 n) / 2)) := by
  have htwo : ((2 : ℕ) : ℚ) ≠ 0 := two_ne_zero
  have hwidth : (b - a) / n = (2 : ℕ) * h := by
    rw [hh, ← two_mul_halfWidth, Nat.cast_ofNat]
  have hends := sum_ends (grid f a h) hn
  rw [trapezoid, endpoints_rational ha hb hn, hwidth]
  simp only [Except.map, pieceWidth_rational a b hn, hwidth, finiteSum_samples_range', grid_mul,
    Exact.ofNat_eq, Exact.rational_add, Exact.rational_mul, Exact.rational_div _ htwo,
    Nat.one_mul, Nat.mul_add, Nat.mul_zero, Nat.mul_one]
  congr 2
  simp only [placeSum, Nat.zero_add]
  rw [← mul_add, hends]
  push_cast
  ring

theorem simpson_eq_placeSum (ha : Scalar.isFinite (f (rational a)) = true)
    (hb : Scalar.isFinite (f (rational b)) = true) {count : ℕ} (hcount : count = evenPieces n / 2)
    (hpos : 0 < count) (hh : h = halfWidth a b count) :
    simpson f (rational a) (rational b) n =
      .ok (rational ((placeSum f a h 0 count + 4 * placeSum f a h 1 count +
        placeSum f a h 2 count) / 6)) := by
  rw [simpson_eq_sum_panel ha hb hcount hpos hh]
  simp only [placeSum, panel, Finset.sum_add_distrib, ← Finset.mul_sum, Nat.zero_add]
  congr 2
  ring

/-! ### Weights -/

/-- The shares of the sums over lower ends, middles and upper ends. -/
structure Weights where
  lower : ℚ
  middle : ℚ
  upper : ℚ

def Weights.total (w : Weights) (f : Exact E → Exact E) (a h : ℚ) (count : ℕ) : ℚ :=
  w.lower * placeSum f a h 0 count + w.middle * placeSum f a h 1 count +
    w.upper * placeSum f a h 2 count

/-- Gaussian nodes are not evenly spaced. -/
def Rule.weights? : Rule → Option Weights
  | left => some ⟨1, 0, 0⟩
  | right => some ⟨0, 0, 1⟩
  | midpoint => some ⟨0, 1, 0⟩
  | trapezoid => some ⟨1 / 2, 0, 1 / 2⟩
  | simpson => some ⟨1 / 6, 4 / 6, 1 / 6⟩
  | gaussLegendre => none

/-- Simpson's rule joins two of the pieces that are asked for. -/
def Rule.pieces : Rule → ℕ → ℕ
  | simpson, n => evenPieces n / 2
  | _, n => n

theorem Rule.pos_of_pieces_pos {rule : Rule} (hpieces : 0 < rule.pieces n) : 0 < n := by
  apply Nat.pos_of_ne_zero
  rintro rfl
  have hnone : rule.pieces 0 = 0 := by cases rule <;> rfl
  exact hpieces.ne' hnone

/-- **Rules by weights.** -/
theorem Rule.gives_total {rule : Rule} {w : Weights} (hw : rule.weights? = some w) (hab : a < b)
    (hpieces : 0 < rule.pieces n)
    (hends : rule ∈ Rule.closed →
      Scalar.isFinite (f (rational a)) = true ∧ Scalar.isFinite (f (rational b)) = true) :
    rule.Gives f a b n
      (w.total f a (halfWidth a b (rule.pieces n)) (rule.pieces n)) := by
  have hn := pos_of_pieces_pos hpieces
  rw [Gives, integrate_rational rule f hab hn]
  cases rule with
  | left | right | midpoint =>
      cases hw
      rw [apply, riemann_eq_placeSum _ f hn]
      simp only [Weights.total, pieces, SamplePoint.place, one_mul, zero_mul, add_zero, zero_add]
  | trapezoid =>
      cases hw
      obtain ⟨ha, hb⟩ := hends (by decide)
      rw [apply, trapezoid_eq_placeSum ha hb hn rfl]
      congr 2
      simp only [Weights.total, pieces]
      ring
  | simpson =>
      cases hw
      obtain ⟨ha, hb⟩ := hends (by decide)
      rw [apply, simpson_eq_placeSum ha hb rfl hpieces rfl]
      congr 2
      simp only [Weights.total, pieces]
      ring
  | gaussLegendre => cases hw

/-! ### Identities -/

def TrapezoidLinked (f : Exact E → Exact E) (a b : ℚ) (n : ℕ) : Prop :=
  ∃ left right, Rule.left.Gives f a b n left ∧ Rule.right.Gives f a b n right ∧
    Rule.trapezoid.Gives f a b n ((left + right) / 2)

/-- Simpson's rule is a mean of the midpoint sum and the trapezoid rule on half as many pieces,
rounded up. -/
def SimpsonLinked (f : Exact E → Exact E) (a b : ℚ) (n : ℕ) : Prop :=
  ∃ midpoint trapezoid, Rule.midpoint.Gives f a b ((n + 1) / 2) midpoint ∧
    Rule.trapezoid.Gives f a b ((n + 1) / 2) trapezoid ∧
      Rule.simpson.Gives f a b n ((2 * midpoint + trapezoid) / 3)

section

variable (hab : a < b) (ha : Scalar.isFinite (f (rational a)) = true)
  (hb : Scalar.isFinite (f (rational b)) = true)
include hab ha hb

theorem trapezoidLinked (hn : 0 < n) : TrapezoidLinked f a b n := by
  refine ⟨_, _, Rule.gives_total rfl hab hn fun _ => ⟨ha, hb⟩,
    Rule.gives_total rfl hab hn fun _ => ⟨ha, hb⟩, ?_⟩
  have hrule : Rule.trapezoid.Gives f a b n _ := Rule.gives_total rfl hab hn fun _ => ⟨ha, hb⟩
  convert hrule using 1
  simp only [Weights.total, Rule.pieces]
  ring

theorem simpsonLinked_of_lt (hn : 0 < n) (hnext : n + 1 < UInt64.size) :
    SimpsonLinked f a b n := by
  have hpairs : 0 < (n + 1) / 2 := by omega
  have hcount : Rule.simpson.pieces n = (n + 1) / 2 := evenPieces_div_two hnext
  refine ⟨_, _, Rule.gives_total rfl hab hpairs fun _ => ⟨ha, hb⟩,
    Rule.gives_total rfl hab hpairs fun _ => ⟨ha, hb⟩, ?_⟩
  have hrule : Rule.simpson.Gives f a b n _ :=
    Rule.gives_total rfl hab (hcount.symm ▸ hpairs) fun _ => ⟨ha, hb⟩
  rw [hcount] at hrule
  convert hrule using 1
  simp only [Weights.total, Rule.pieces]
  ring

theorem not_simpsonLinked_of_last (hlast : n + 1 = UInt64.size) : ¬ SimpsonLinked f a b n := by
  rintro ⟨midpoint, trapezoid, -, -, hsimpson⟩
  rw [Rule.Gives, integrate_simpson_last ha hb hab hlast] at hsimpson
  cases hsimpson

end

/-- **The classical identities**, whatever the values between the limits. That of Simpson's rule
needs the number above the given one to fit 64 bits. -/
theorem linked_of_isFinite_limits (hab : a < b) (hn : 0 < n) (hword : n < UInt64.size)
    (ha : Scalar.isFinite (f (rational a)) = true)
    (hb : Scalar.isFinite (f (rational b)) = true) :
    TrapezoidLinked f a b n ∧ (SimpsonLinked f a b n ↔ n + 1 < UInt64.size) := by
  refine ⟨trapezoidLinked hab ha hb hn, fun hlinked => ?_, simpsonLinked_of_lt hab ha hb hn⟩
  apply lt_of_le_of_ne hword
  intro hlast
  exact not_simpsonLinked_of_last hab ha hb hlast hlinked

theorem isFinite_one_div_sub_one {x : ℚ} (hx : x ≠ 1) :
    Scalar.isFinite (1 / (rational x - 1) : Exact E) = true := by
  have hne : x - (1 : ℕ) ≠ 0 := by
    rw [Nat.cast_one]
    exact sub_ne_zero.mpr hx
  rw [Exact.ofNat_eq, Exact.rational_sub, Exact.rational_div _ hne]
  rfl

/-- A pole on the grid, and an odd number of pieces. -/
theorem linked_reciprocal :
    TrapezoidLinked (fun x : Exact .rationalPart => 1 / (x - 1)) 0 3 3 ∧
      SimpsonLinked (fun x : Exact .rationalPart => 1 / (x - 1)) 0 3 3 := by
  obtain ⟨htrapezoid, hsimpson⟩ := linked_of_isFinite_limits (a := 0) (b := 3) (n := 3)
    (f := fun x : Exact .rationalPart => 1 / (x - 1)) (by norm_num) (by norm_num) (by decide)
    (isFinite_one_div_sub_one (by norm_num)) (isFinite_one_div_sub_one (by norm_num))
  exact ⟨htrapezoid, hsimpson.mpr (by decide)⟩

/-- As many pieces as 64 bits can say. -/
theorem not_simpsonLinked_last_word :
    ¬ SimpsonLinked (fun x : Exact .rationalPart => x) 0 2 18446744073709551615 :=
  not_simpsonLinked_of_last (by norm_num) rfl rfl rfl

end Univariate.Quadrature
