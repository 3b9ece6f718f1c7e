import Univariate.Scalar

/-! Why a search for roots has no answer. -/

namespace Univariate.Root

variable {α : Type}

/-- What is wrong with the settings of a sweep. -/
inductive SweepFault (α : Type) where
  | granularity (value : α)
  | tolerance (value : α)
  | noTargetPieces
  | tooManyPieces (granularity count start stop : α) (limit : Nat)
deriving DecidableEq

inductive Error (α : Type) where
  | invalidInterval
  | noSignChange
  | nonFiniteEndpoint
  | divergentMidpoint (x : α)
  | unfitSweep (fault : SweepFault α)
deriving DecidableEq

variable [Scalar α]

def SweepFault.message : SweepFault α → Text
  | granularity value => "granularity must be positive, got ".toList ++ Scalar.plain value
  | tolerance value => "tolerance must be positive, got ".toList ++ Scalar.plain value
  | noTargetPieces => "target_subintervals must be positive".toList
  | tooManyPieces width count start stop limit =>
    "granularity ".toList ++ Scalar.plain width ++ " gives ".toList ++
      Scalar.scientific count ++ " sub-intervals on [".toList ++ Scalar.plain start ++
      ", ".toList ++ Scalar.plain stop ++ "], at most ".toList ++
      Numeral.naturalText limit ++ " allowed".toList

def Error.message : Error α → Text
  | invalidInterval => "Invalid interval for bisection method".toList
  | noSignChange => "Function does not change sign in the given interval".toList
  | nonFiniteEndpoint => "Function is not finite at the interval endpoints".toList
  | divergentMidpoint x => "Function diverges at x = ".toList ++ Scalar.plain x
  | unfitSweep fault => "Invalid input: ".toList ++ fault.message

end Univariate.Root
