import Mathlib.Algebra.Order.Ring.Unbundled.Rat
import Mathlib.Data.Rat.Floor
import Mathlib.Data.Rat.Sqrt
import Mathlib.Tactic.Linarith
import Univariate.Numeral.Shortest
import Univariate.Proofs.Scalar.Order
import Univariate.Scalar

/-!
# Exact arithmetic

The rational numbers as scalars, with one value for everything that is not finite. Whatever is no
rational operation is a parameter, and may itself have no finite value.
-/

namespace Univariate

/-- The functions that leave the rational numbers. `pow` is asked for the exponents that are no
natural numbers. -/
structure Elementary where
  sqrt : ℚ → Option ℚ
  exp : ℚ → Option ℚ
  sin : ℚ → Option ℚ
  cos : ℚ → Option ℚ
  pow : ℚ → ℚ → Option ℚ

/-- Values at the arguments where they are rational: squares, zero, and whole exponents. -/
def Elementary.rationalPart : Elementary where
  sqrt q := if Rat.sqrt q * Rat.sqrt q = q then some (Rat.sqrt q) else none
  exp q := if q = 0 then some 1 else none
  sin q := if q = 0 then some 0 else none
  cos q := if q = 0 then some 1 else none
  pow p q := if q.den = 1 ∧ p ≠ 0 then some (p ^ q.num) else none

inductive Exact (E : Elementary) where
  | rational (q : ℚ)
  | notFinite
deriving DecidableEq

namespace Exact

variable {E : Elementary}

def ofOption : Option ℚ → Exact E
  | some q => rational q
  | none => notFinite

def lift (f : ℚ → Option ℚ) : Exact E → Exact E
  | rational q => ofOption (f q)
  | notFinite => notFinite

def lift₂ (f : ℚ → ℚ → Option ℚ) : Exact E → Exact E → Exact E
  | rational p, rational q => ofOption (f p q)
  | _, _ => notFinite

def compare (r : ℚ → ℚ → Bool) : Exact E → Exact E → Bool
  | rational p, rational q => r p q
  | _, _ => false

def ofNumeral : Numeral → Exact E
  | .nan | .infinite _ => notFinite
  | .decimal negative digits exponent =>
    let size := (digits : ℚ) * 10 ^ exponent
    rational (if negative then -size else size)

/-- With as many places as the denominator can need when it is a product of twos and fives. -/
def numeral (q : ℚ) : Numeral :=
  let places := q.den.log2
  let (digits, exponent) :=
    Numeral.dropZeros (-(places : Int)) places (q.num.natAbs * 10 ^ places / q.den)
  .decimal (q < 0) digits exponent

def power (E : Elementary) (p q : ℚ) : Option ℚ :=
  if q.den = 1 ∧ 0 ≤ q.num then some (p ^ q.num.toNat) else E.pow p q

instance : Scalar (Exact E) where
  add := lift₂ fun p q => some (p + q)
  sub := lift₂ fun p q => some (p - q)
  mul := lift₂ fun p q => some (p * q)
  div := lift₂ fun p q => if q = 0 then none else some (p / q)
  neg := lift fun q => some (-q)
  lt x y := compare (· < ·) x y = true
  le x y := compare (· ≤ ·) x y = true
  beq := compare (· = ·)
  decLt _ _ := inferInstanceAs (Decidable (_ = true))
  decLe _ _ := inferInstanceAs (Decidable (_ = true))
  ofNumeral := ofNumeral
  toNumeral
    | rational q => numeral q
    | notFinite => .nan
  magnitude
    | rational q => |q|
    | notFinite => 0
  isFinite
    | rational _ => true
    | notFinite => false
  isNaN
    | rational _ => false
    | notFinite => true
  abs := lift fun q => some |q|
  sqrt := lift E.sqrt
  exp := lift E.exp
  sin := lift E.sin
  cos := lift E.cos
  pow := lift₂ (power E)
  ceil := lift fun q => some ⌈q⌉
  toNat
    | rational q => min ⌊q⌋.toNat (2 ^ 64 - 1)
    | notFinite => 0
  sortsBefore
    | rational p, rational q => p ≤ q
    | notFinite, rational _ => false
    | _, notFinite => true

variable (p q : ℚ)

@[simp]
theorem rational_add : (rational p + rational q : Exact E) = rational (p + q) := rfl

@[simp]
theorem rational_sub : (rational p - rational q : Exact E) = rational (p - q) := rfl

@[simp]
theorem rational_mul : (rational p * rational q : Exact E) = rational (p * q) := rfl

theorem rational_div {q : ℚ} (hq : q ≠ 0) :
    (rational p / rational q : Exact E) = rational (p / q) := by
  change ofOption (if q = 0 then none else some (p / q)) = _
  rw [if_neg hq]
  rfl

@[simp]
theorem neg_rational : (-rational q : Exact E) = rational (-q) := rfl

@[simp]
theorem rational_lt_rational : (rational p : Exact E) < rational q ↔ p < q := decide_eq_true_iff

@[simp]
theorem rational_le_rational : (rational p : Exact E) ≤ rational q ↔ p ≤ q := decide_eq_true_iff

@[simp]
theorem rational_beq_rational : ((rational p : Exact E) == rational q) = decide (p = q) := rfl

@[simp]
theorem abs_rational : Scalar.abs (rational q : Exact E) = rational |q| := rfl

@[simp]
theorem isFinite_rational : Scalar.isFinite (rational q : Exact E) = true := rfl

theorem exists_rational_of_isFinite {x : Exact E} (h : Scalar.isFinite x = true) :
    ∃ q, x = rational q := by
  cases x with
  | rational q => exact ⟨q, rfl⟩
  | notFinite => exact Bool.noConfusion h

@[simp]
theorem pow_natCast (n : ℕ) :
    Scalar.pow (rational q : Exact E) (rational (n : ℚ)) = rational (q ^ n) := by
  have hpower : power E q n = some (q ^ n) := by
    rw [power, if_pos ⟨Rat.den_natCast n, by simp⟩, Rat.num_natCast, Int.toNat_natCast]
  change ofOption (power E q n) = _
  rw [hpower]
  rfl

@[simp]
theorem ofNat_eq (n : ℕ) : (@OfNat.ofNat (Exact E) n _) = rational n := by
  change rational ((n : ℚ) * 10 ^ (0 : Int)) = _
  rw [zpow_zero, mul_one]

theorem scalarOfNat_eq (n : ℕ) : (Scalar.ofNat n : Exact E) = rational n := ofNat_eq n

theorem min_rational : Scalar.min (rational p : Exact E) (rational q) = rational (min p q) := by
  change (if (rational q : Exact E) < rational p then _ else _) = _
  by_cases hlt : q < p
  · rw [if_pos (by simpa using hlt), min_eq_right hlt.le]
  · rw [if_neg (by simpa using hlt), min_eq_left (not_lt.mp hlt)]

theorem max_rational : Scalar.max (rational p : Exact E) (rational q) = rational (max p q) := by
  change (if (rational p : Exact E) < rational q then _ else _) = _
  by_cases hlt : p < q
  · rw [if_pos (by simpa using hlt), max_eq_right hlt.le]
  · rw [if_neg (by simpa using hlt), max_eq_left (not_lt.mp hlt)]

/-- Decimal literals are exact. -/
theorem ofScientific_eq (digits : ℕ) (negative : Bool) (exponent : ℕ) :
    (OfScientific.ofScientific digits negative exponent : Exact E) =
      rational (OfScientific.ofScientific digits negative exponent : ℚ) := by
  change rational ((digits : ℚ) * 10 ^ (if negative then -(exponent : Int) else exponent)) = _
  refine congrArg rational ?_
  cases negative with
  | false =>
      change (digits : ℚ) * 10 ^ (exponent : Int) = Rat.ofScientific digits false exponent
      rw [Rat.ofScientific_false_def, zpow_natCast]
      push_cast
      rfl
  | true =>
      change (digits : ℚ) * 10 ^ (-(exponent : Int)) = Rat.ofScientific digits true exponent
      rw [Rat.ofScientific_true_def, Rat.mkRat_eq_div, zpow_neg, zpow_natCast, div_eq_mul_inv]
      push_cast
      rfl

theorem negativeZero_eq : (Scalar.negativeZero : Exact E) = rational 0 := by
  change rational (-(((0 : ℕ) : ℚ) * 10 ^ (0 : Int))) = _
  rw [Nat.cast_zero, zero_mul, neg_zero]

theorem sum_map_rational (values : List ℚ) :
    Scalar.sum (values.map (rational : ℚ → Exact E)) = rational values.sum := by
  have hfold : ∀ (values : List ℚ) (total : ℚ),
      (values.map rational).foldl (· + ·) (rational total : Exact E) =
        rational (total + values.sum) := by
    intro values
    induction values with
    | nil =>
        intro total
        rw [List.sum_nil, add_zero]
        rfl
    | cons q values ih =>
        intro total
        rw [List.map_cons, List.foldl_cons, rational_add, ih, List.sum_cons, add_assoc]
  unfold Scalar.sum
  rw [negativeZero_eq, hfold, zero_add]

theorem exists_rational_of_isNaN {x : Exact E} (h : Scalar.isNaN x = false) :
    ∃ q, x = rational q := by
  cases x with
  | rational q => exact ⟨q, rfl⟩
  | notFinite => exact Bool.noConfusion h

@[simp]
theorem not_le_notFinite (x : Exact E) : ¬x ≤ notFinite := by
  cases x <;> exact Bool.noConfusion

@[simp]
theorem not_notFinite_le (x : Exact E) : ¬notFinite ≤ x := Bool.noConfusion

@[simp]
theorem not_lt_notFinite (x : Exact E) : ¬x < notFinite := by
  cases x <;> exact Bool.noConfusion

@[simp]
theorem not_notFinite_lt (x : Exact E) : ¬notFinite < x := Bool.noConfusion

@[simp]
theorem beq_notFinite (x : Exact E) : (x == notFinite) = false := by
  cases x <;> rfl

@[simp]
theorem notFinite_beq (x : Exact E) : (notFinite == x) = false := rfl

instance : Scalar.LawfulOrder (Exact E) where
  isNaN_of_le {x y} h := by
    cases x <;> cases y <;> simp_all [Scalar.isNaN]
  le_total {x y} hx hy := by
    obtain ⟨p, rfl⟩ := exists_rational_of_isNaN hx
    obtain ⟨q, rfl⟩ := exists_rational_of_isNaN hy
    simpa using le_total p q
  le_trans {x y z} hxy hyz := by
    cases x <;> cases y <;> cases z <;> simp_all
    exact le_trans hxy hyz
  lt_iff_le_not_ge {x y} := by
    cases x <;> cases y <;> simp only [rational_lt_rational, rational_le_rational,
      not_lt_notFinite, not_notFinite_lt, not_le_notFinite, not_notFinite_le, not_false_iff,
      and_true, lt_iff_le_not_ge]
  beq_iff_le_and_ge {x y} := by
    cases x with
    | notFinite => simp
    | rational p =>
        cases y with
        | notFinite => simp
        | rational q =>
            rw [rational_beq_rational, decide_eq_true_iff, rational_le_rational,
              rational_le_rational]
            exact le_antisymm_iff
  isNaN_of_isFinite {x} h := by
    cases x <;> simp_all [Scalar.isFinite, Scalar.isNaN]
  isFinite_of_le_of_le {x y z} _ _ hxy _ := by
    cases y with
    | rational q => rfl
    | notFinite => exact absurd hxy (not_le_notFinite x)
  isNaN_abs x := by cases x <;> rfl
  sortsBefore_trans {x y z} hxy hyz := by
    cases x <;> cases y <;> cases z <;> simp_all [Scalar.sortsBefore]
    exact le_trans hxy hyz
  sortsBefore_total x y := by
    cases x <;> cases y <;> simp [Scalar.sortsBefore, le_total]
  le_of_sortsBefore {x y} hx hy h := by
    obtain ⟨p, rfl⟩ := exists_rational_of_isNaN hx
    obtain ⟨q, rfl⟩ := exists_rational_of_isNaN hy
    simpa [Scalar.sortsBefore] using h

theorem exists_rational_of_abs_sub_lt {x y d : Exact E} (h : Scalar.abs (x - y) < d) :
    ∃ p q r, x = rational p ∧ y = rational q ∧ d = rational r := by
  cases x with
  | notFinite => exact absurd h (not_notFinite_lt d)
  | rational p =>
      cases y with
      | notFinite => exact absurd h (not_notFinite_lt d)
      | rational q =>
          cases d with
          | notFinite => exact absurd h (not_lt_notFinite _)
          | rational r => exact ⟨p, q, r, rfl, rfl, rfl⟩

instance : Scalar.LawfulDistance (Exact E) where
  isNaN_add {x y} hx hy := by
    obtain ⟨p, rfl⟩ := exists_rational_of_isFinite hx
    obtain ⟨q, rfl⟩ := exists_rational_of_isFinite hy
    rfl
  isNaN_add_midpoint {x y} h := by
    have htwo : ((2 : ℕ) : ℚ) ≠ 0 := by norm_num
    cases x with
    | notFinite => exact Bool.noConfusion h
    | rational p =>
        cases y with
        | notFinite => exact Bool.noConfusion h
        | rational q =>
            rw [rational_add, ofNat_eq, rational_div _ htwo]
            exact ⟨rfl, rfl, rfl⟩
  add_le_add {x y d} _ _ hd h := by
    obtain ⟨r, rfl⟩ := exists_rational_of_isNaN hd
    cases x <;> cases y <;> simp_all
  sub_le_sub {x y d} _ _ hd h := by
    obtain ⟨r, rfl⟩ := exists_rational_of_isNaN hd
    cases x <;> cases y <;> simp_all
  le_add_of_nonneg {x d} hx hd := by
    obtain ⟨q, rfl⟩ := exists_rational_of_isFinite hx
    cases d with
    | rational r => simpa using hd
    | notFinite => exact absurd hd (not_le_notFinite _)
  sub_le_of_nonneg {x d} hx hd := by
    obtain ⟨q, rfl⟩ := exists_rational_of_isFinite hx
    cases d with
    | rational r => simpa using hd
    | notFinite => exact absurd hd (not_le_notFinite _)
  abs_sub_comm x y := by
    cases x <;> cases y <;> try rfl
    simp [abs_sub_comm]
  le_add_of_abs_sub_lt {x y d} h := by
    obtain ⟨p, q, r, rfl, rfl, rfl⟩ := exists_rational_of_abs_sub_lt h
    have hdistance : |p - q| < r := by simpa using h
    rw [rational_add, rational_le_rational]
    linarith [le_abs_self (p - q)]
  sub_le_of_abs_sub_lt {x y d} h := by
    obtain ⟨p, q, r, rfl, rfl, rfl⟩ := exists_rational_of_abs_sub_lt h
    have hdistance : |p - q| < r := by simpa using h
    rw [rational_sub, rational_le_rational]
    linarith [neg_abs_le (p - q)]

instance : Scalar.LawfulZero (Exact E) where
  isFinite_zero := rfl
  abs_beq_zero {x} h := by
    cases x with
    | notFinite => exact Bool.noConfusion h
    | rational q => simpa using h

end Exact

end Univariate
