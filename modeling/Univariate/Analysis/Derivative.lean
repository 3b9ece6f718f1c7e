import Univariate.Analysis.Error
import Univariate.CriticalPoint
import Univariate.Root.Sweep

/-! Derivatives of a function and its critical points on an interval. -/

namespace Univariate.Analysis

variable {α : Type} [Scalar α]

/-- Pieces that end next to zero are searched, so that a critical point at the origin is found. -/
structure Settings (α : Type) [Scalar α] where
  strictness : Strictness := .permissive
  sweep : Root.Sweep α := { zeroPolicy := .nudge }
  classifier : CriticalPoint.Classifier α := {}

structure DerivativeReport (α : Type) where
  /-- The top-level terms as they were written, blanks removed. -/
  pieces : List Text
  function : Expression α
  first : Expression α
  second : Expression α
  points : List (CriticalPoint α)

namespace DerivativeReport

def text (r : DerivativeReport α) : Text :=
  "f(x)   = ".toList ++ r.function.text ++ "\nf'(x)  = ".toList ++ r.first.text ++
    "\nf''(x) = ".toList ++ r.second.text ++ ['\n'] ++
    (if r.points.isEmpty then "no critical points found".toList else CriticalPoint.table r.points) ++
    ['\n']

end DerivativeReport

def derivatives (s : Settings α) (t : Text) (start stop : α) :
    Except (Error α) (DerivativeReport α) :=
  match readFunction s.strictness t with
  | .error error => .error error
  | .ok (pieces, e) =>
    if !Scalar.isFinite start || !Scalar.isFinite stop || stop ≤ start then
      .error (.invalidInterval start stop)
    else
      let first := e.derivative
      let second := first.derivative
      match s.sweep.run first.eval start stop with
      | .error error => .error (.root error)
      | .ok roots =>
        .ok { pieces, function := e, first, second,
              points := s.classifier.points e.eval second.eval roots }

end Univariate.Analysis
