import Univariate.Scalar
import Univariate.Text.Table

/-! Critical points, told apart by the sign of the second derivative. -/

namespace Univariate

variable {α : Type} [Scalar α]

namespace CriticalPoint

inductive Kind where
  | minimum
  | maximum
  | inflection
  | inconclusive
deriving DecidableEq, Repr

def Kind.name : Kind → Text
  | minimum => "local minimum".toList
  | maximum => "local maximum".toList
  | inflection => "inflection or undetermined".toList
  | inconclusive => "inconclusive".toList

structure Classifier (α : Type) [Scalar α] where
  /-- A larger value marks a discontinuity. -/
  magnitudeGuard : α := 1e8
  /-- A smaller second derivative counts as flat. -/
  flatThreshold : α := 1e-6

end CriticalPoint

structure CriticalPoint (α : Type) where
  location : α
  kind : CriticalPoint.Kind
  value : α
deriving DecidableEq

namespace CriticalPoint

def Classifier.kind (s : Classifier α) (curvature : α) : Kind :=
  if !Scalar.isFinite curvature then .inconclusive
  else if Scalar.abs curvature < s.flatThreshold then .inflection
  else if 0 < curvature then .minimum
  else .maximum

/-- Nothing at a discontinuity. -/
def Classifier.point? (s : Classifier α) (f second : α → α) (x : α) : Option (CriticalPoint α) :=
  let value := f x
  if !Scalar.isFinite value || s.magnitudeGuard < Scalar.abs value then none
  else some { location := x, kind := s.kind (second x), value := value }

def Classifier.points (s : Classifier α) (f second : α → α) (xs : List α) :
    List (CriticalPoint α) :=
  xs.filterMap (s.point? f second)

def row (p : CriticalPoint α) : List Text :=
  [Scalar.fixed 6 p.location, p.kind.name, Scalar.fixed 6 p.value]

def table (points : List (CriticalPoint α)) : Text :=
  Text.table ["x".toList, "type".toList, "f(x)".toList] (points.map row)

end CriticalPoint

end Univariate
