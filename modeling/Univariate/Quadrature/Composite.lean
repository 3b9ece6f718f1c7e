import Univariate.Quadrature.Error

/-! Composite rules on evenly spaced samples. Samples that are not finite are left out. -/

namespace Univariate.Quadrature

variable {α : Type} [Scalar α]

def finiteSum (values : List α) : α := Scalar.sum (values.filter Scalar.isFinite)

inductive SamplePoint where
  | left
  | right
  | midpoint
deriving DecidableEq, Repr

/-- Where the `i`-th piece is sampled, in piece widths from the lower limit. -/
def SamplePoint.offset : SamplePoint → Nat → α
  | left, i => Scalar.ofNat i
  | right, i => Scalar.ofNat (i + 1)
  | midpoint, i => Scalar.ofNat i + 0.5

def pieceWidth (a b : α) (n : Nat) : α := (b - a) / Scalar.ofNat n

@[specialize] def riemann (point : SamplePoint) (f : α → α) (a b : α) (n : Nat) : α :=
  let dx := pieceWidth a b n
  finiteSum ((List.range n).map fun i => f (a + point.offset i * dx)) * dx

/-- The values at both limits, which have to be finite; the lower limit is looked at first. -/
def endpoints (f : α → α) (a b : α) : Except (Error α) (α × α) :=
  if !Scalar.isFinite (f a) then .error (.nonFiniteEndpoint a)
  else if !Scalar.isFinite (f b) then .error (.nonFiniteEndpoint b)
  else .ok (f a, f b)

@[specialize] def samples (f : α → α) (a h : α) (indices : List Nat) : List α :=
  indices.map fun i => f (a + Scalar.ofNat i * h)

@[specialize] def trapezoid (f : α → α) (a b : α) (n : Nat) : Except (Error α) α :=
  (endpoints f a b).map fun (fa, fb) =>
    let dx := pieceWidth a b n
    let interior := finiteSum (samples f a dx (List.range' 1 (n - 1)))
    ((fa + fb) / 2 + interior) * dx

/-- An odd number of pieces is raised by one. It is a 64-bit number, and after the last of these,
which is odd, comes zero. -/
def evenPieces (n : Nat) : Nat := if n % 2 == 0 then n else (n + 1) % UInt64.size

@[specialize] def simpson (f : α → α) (a b : α) (n : Nat) : Except (Error α) α :=
  (endpoints f a b).map fun (fa, fb) =>
    let n := evenPieces n
    let h := pieceWidth a b n
    let odd := finiteSum (samples f a h (List.range' 1 (n / 2) 2))
    let even := finiteSum (samples f a h (List.range' 2 (n / 2 - 1) 2))
    h / 3 * (fa + fb + 4 * odd + 2 * even)

end Univariate.Quadrature
