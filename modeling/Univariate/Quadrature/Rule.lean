import Univariate.Quadrature.Composite
import Univariate.Quadrature.Legendre

/-! The quadrature rules by name. -/

namespace Univariate.Quadrature

inductive Rule where
  | left
  | right
  | midpoint
  | trapezoid
  | simpson
  | gaussLegendre
deriving DecidableEq, Repr

namespace Rule

def name : Rule → Text
  | left => "left".toList
  | right => "right".toList
  | midpoint => "midpoint".toList
  | trapezoid => "trapezoid".toList
  | simpson => "simpson".toList
  | gaussLegendre => "gauss_legendre".toList

def description : Rule → Text
  | left => "Riemann sum, left edge of every sub-interval".toList
  | right => "Riemann sum, right edge of every sub-interval".toList
  | midpoint => "Riemann sum, midpoint of every sub-interval".toList
  | trapezoid => "composite trapezoid rule".toList
  | simpson => "composite Simpson rule (n rounded up to even)".toList
  | gaussLegendre => "Gauss-Legendre quadrature, n nodes".toList

/-- The rules on evenly spaced samples. -/
def classic : List Rule := [left, right, midpoint, trapezoid, simpson]

def ofName? (t : Text) : Option Rule := (classic ++ [gaussLegendre]).find? (·.name == t)

theorem ofName?_name (rule : Rule) : ofName? rule.name = some rule := by
  cases rule <;> decide

variable {α : Type} [Scalar α]

/-- On limits and pieces without a fault. -/
@[specialize] def apply (rule : Rule) (f : α → α) (a b : α) (n : Nat) : Except (Error α) α :=
  match rule with
  | left => .ok (riemann .left f a b n)
  | right => .ok (riemann .right f a b n)
  | midpoint => .ok (riemann .midpoint f a b n)
  | trapezoid => Quadrature.trapezoid f a b n
  | simpson => Quadrature.simpson f a b n
  | gaussLegendre => Legendre.integrate f a b n

end Rule

variable {α : Type} [Scalar α]

/-- The number of pieces when none is given. -/
def defaultPieces : Nat := 100

@[specialize] def integrate (rule : Rule) (f : α → α) (a b : α) (n : Nat) : Except (Error α) α :=
  match fault? a b n with
  | some error => .error error
  | none => rule.apply f a b n

end Univariate.Quadrature
