import Univariate.Expression
import Univariate.Quadrature.Error
import Univariate.Root.Error

/-! Why an analysis has no result. -/

namespace Univariate.Analysis

variable {α : Type}

inductive Error (α : Type) where
  | emptyFunction
  /-- The text consists of signs and empty groups. -/
  | noTerms
  | invalidInterval (start stop : α)
  | invalidIntegral (a b : α) (n : Nat)
  | invalidPieces (text : Text)
  | parse (error : ParseError)
  | root (error : Root.Error α)
  | quadrature (error : Quadrature.Error α)
deriving DecidableEq

variable [Scalar α]

def Error.message : Error α → Text
  | emptyFunction => "The function must not be empty".toList
  | noTerms => "Could not interpret the function, check the syntax".toList
  | invalidInterval start stop =>
    "The interval start must be smaller than its end, got [".toList ++ Scalar.plain start ++
      ", ".toList ++ Scalar.plain stop ++ "]".toList
  | invalidIntegral a b n =>
    integralInput ++ "a = ".toList ++ Scalar.plain a ++ ", b = ".toList ++ Scalar.plain b ++
      ", n = ".toList ++ Numeral.naturalText n
  | invalidPieces text => integralInput ++ "n = '".toList ++ text ++ "'".toList
  | parse error => error.message
  | root error => error.message
  | quadrature error => error.message
where
  integralInput : Text :=
    "Integration limits and the number of intervals must be valid numbers: ".toList

/-- The top-level pieces of a text, and the expression it stands for, which has a term. -/
def readFunction (mode : Strictness) (t : Text) : Except (Error α) (List Text × Expression α) :=
  if t.withoutBlanks.isEmpty then .error .emptyFunction
  else
    match Expression.read mode t with
    | .error error => .error (.parse error)
    | .ok e => if e.terms.isEmpty then .error .noTerms else .ok (Expression.pieces t, e)

end Univariate.Analysis
