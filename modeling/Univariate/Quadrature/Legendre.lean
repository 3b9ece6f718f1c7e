import Univariate.Quadrature.Error

/-!
Gauss–Legendre quadrature. Nodes are the cosines of the angles at which the Legendre polynomial
vanishes. Angles and weights are found by Newton's method on whole numbers that count units of
`10⁻⁴⁰`, and only then become scalars.
-/

namespace Univariate.Quadrature.Legendre

/-! ### Arithmetic to forty places -/

def places : Nat := 40

def unit : Int := Int.pow 10 places

def product (x y : Int) : Int := x * y / unit

def quotient (x y : Int) : Int := x * unit / y

def pi : Int := 31415926535897932384626433832795028841971

/-- The alternating series whose next term is the last one times the square of the angle over
`k (k + 1)`, and so on with `k + 2`. -/
def series (square : Int) : (terms k : Nat) → (term : Int) → Int
  | 0, _, _ => 0
  | terms + 1, k, term =>
    term + series square terms (k + 2) (-(product term square / (k * (k + 1))))

def cosine (angle : Int) : Int := series (product angle angle) 25 1 unit

def sine (angle : Int) : Int := series (product angle angle) 25 2 angle

/-- The Legendre polynomials of degree `k - 1` and `k` at `x`, carried on by so many degrees. -/
def raise (x : Int) : (steps k : Nat) → (before now : Int) → Int × Int
  | 0, _, before, now => (before, now)
  | steps + 1, k, before, now =>
    raise x steps (k + 1) now (((2 * k + 1) * product x now - k * before) / (k + 1))

/-- The polynomial of degree `n` at the cosine of an angle, and its derivative in the angle. -/
def atAngle (n : Nat) (angle : Int) : Int × Int :=
  let x := cosine angle
  let (before, now) := raise x (n - 1) 1 unit x
  (now, -quotient (n * (before - product x now)) (sine angle))

def newton (n : Nat) : (steps : Nat) → Int → Int
  | 0, angle => angle
  | steps + 1, angle =>
    let (value, slope) := atAngle n angle
    newton n steps (angle - quotient value slope)

/-- The `k`-th angle below the right angle, counted from one, found from its asymptotic place. -/
def angle (n k : Nat) : Int :=
  newton n 5 (pi * (4 * k - 1) / (4 * n + 2))

def slope (n : Nat) (angle : Int) : Int := (atAngle n angle).2

def weight (n : Nat) (angle : Int) : Int :=
  let slope := slope n angle
  quotient (2 * unit) (product slope slope)

/-! ### The rule -/

variable {α : Type} [Scalar α]

def toScalar (x : Int) : α := Scalar.ofNumeral (.decimal (x < 0) x.natAbs (-places))

/-- The node at the right angle, which an odd number of nodes has. -/
def middle (n : Nat) : α × α :=
  let slope : α := toScalar (slope n (pi / 2))
  (Scalar.cos (toScalar (pi / 2)), 2 / (slope * slope))

/-- Nodes with their weights, from the largest down. The second half has the supplements of the
angles of the first. -/
def nodes (n : Nat) : List (α × α) :=
  let half : List (α × α) := (List.range' 1 (n / 2)).map fun k =>
    let angle := angle n k
    (toScalar angle, toScalar (weight n angle))
  half.map (fun (angle, weight) => (Scalar.cos angle, weight)) ++
    (if n % 2 == 1 then [middle n] else []) ++
    half.reverse.map (fun (angle, weight) => (Scalar.cos (toScalar pi - angle), weight))

/-- The nodes carried from `[-1, 1]` to the interval. A sample that is not finite counts as zero. -/
def integrate (f : α → α) (a b : α) (n : Nat) : Except (Error α) α :=
  if n < 2 then .error .tooFewNodes
  else
    let sample (x : α) : α :=
      let value := f (0.5 * ((b - a) * x + (b + a)))
      if Scalar.isFinite value then value else 0
    .ok (0.5 * (b - a) * Scalar.sum ((nodes n).map fun (x, weight) => sample x * weight))

end Univariate.Quadrature.Legendre
