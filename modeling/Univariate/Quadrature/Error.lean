import Univariate.Scalar
import Univariate.Text.Blank

/-! What an integral needs: finite limits in order, and at least one piece. -/

namespace Univariate.Quadrature

variable {α : Type}

inductive Error (α : Type) where
  | noPieces
  | invalidInterval (a b : α)
  | invalidBound (text : Text)
  | nonFiniteEndpoint (x : α)
  | tooFewNodes
deriving DecidableEq

variable [Scalar α]

def Error.message : Error α → Text
  | noPieces => "Number of subdivisions must be positive".toList
  | invalidInterval a b =>
    "Lower limit must be finite and smaller than the upper limit, got [".toList ++
      Scalar.plain a ++ ", ".toList ++ Scalar.plain b ++ "]".toList
  | invalidBound text => "Integration limit '".toList ++ text ++ "' is not a valid number".toList
  | nonFiniteEndpoint x =>
    "Function is not finite at the interval endpoint x = ".toList ++ Scalar.plain x
  | tooFewNodes => "Quadrature setup failed: at least two nodes are needed".toList

/-- Missing pieces come before a bad interval. -/
def fault? (a b : α) (n : Nat) : Option (Error α) :=
  if n == 0 then some .noPieces
  else if !Scalar.isFinite a || !Scalar.isFinite b || b ≤ a then some (.invalidInterval a b)
  else none

/-- A limit as text, blanks around it allowed. The error holds the text with its blanks. -/
def bound (t : Text) : Except (Error α) α :=
  match Scalar.ofText? t.trim with
  | some x => if Scalar.isFinite x then .ok x else .error (.invalidBound t)
  | none => .error (.invalidBound t)

end Univariate.Quadrature
