import Univariate.Analysis.Error
import Univariate.Analysis.Integrand
import Univariate.Quadrature.Summary

/-! All classic quadrature rules on an integrand in text form. -/

namespace Univariate.Analysis

variable {α : Type} [Scalar α]

def integral (t : Text) (a b : α) (n : Nat) : Except (Error α) (Quadrature.Summary α) :=
  match readFunction .permissive (Integrand.respell t) with
  | .error error => .error error
  | .ok (_, e) =>
    if Scalar.isNaN a || Scalar.isNaN b || n == 0 then .error (.invalidIntegral a b n)
    else (Quadrature.summarize e.eval a b n).mapError .quadrature

/-- The limits and the number of pieces are read from text too. -/
def integralOfText (t a b n : Text) : Except (Error α) (Quadrature.Summary α) := do
  let a ← (Quadrature.bound a).mapError .quadrature
  let b ← (Quadrature.bound b).mapError .quadrature
  match Numeral.word? n.trim with
  | some n => integral t a b n
  | none => .error (.invalidPieces n)

end Univariate.Analysis
