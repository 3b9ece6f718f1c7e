import Univariate.Text.Basic

/-! Written numbers. -/

namespace Univariate

/-- What a number text can say. A decimal stands for `± digits · 10 ^ exponent`; its zero keeps its
sign. -/
inductive Numeral where
  | nan
  | infinite (negative : Bool)
  | decimal (negative : Bool) (digits : Nat) (exponent : Int)
deriving DecidableEq, Repr

namespace Numeral

def ofNat (n : Nat) : Numeral := .decimal false n 0

def ofInt (n : Int) : Numeral := .decimal (n < 0) n.natAbs 0

end Numeral

end Univariate
