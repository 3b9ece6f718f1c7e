import Univariate.Scalar

/-! Terms of one variable `x`: the summands that can be evaluated and differentiated. -/

namespace Univariate

inductive Wave where
  | sin
  | cos
deriving DecidableEq, Repr

/-- What stands after `e^`. Only a leading number changes the value of the exponent; the text is kept
as it was written. -/
inductive ExponentArgument (α : Type) where
  | variable
  | scaled (factor : α) (raw : Text)
  | other (raw : Text)
deriving DecidableEq

/-- The sign of a term is part of its coefficient. -/
inductive Term (α : Type) where
  | power (coefficient exponent : α)
  | linear (coefficient : α)
  | exponential (coefficient : α) (argument : ExponentArgument α)
  | constant (value : α)
  | wave (kind : Wave) (coefficient : α)
  | unrecognized (raw : Text)
deriving DecidableEq

namespace Term

variable {α : Type}

def coefficient? : Term α → Option α
  | power c _ | linear c | exponential c _ | constant c | wave _ c => some c
  | unrecognized _ => none

def isUnrecognized : Term α → Bool
  | unrecognized _ => true
  | _ => false

def isZero [Scalar α] (t : Term α) : Bool :=
  match t.coefficient? with
  | some c => c == 0
  | none => false

end Term

end Univariate
