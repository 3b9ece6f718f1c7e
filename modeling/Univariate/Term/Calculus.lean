import Univariate.Term

/-! The value of a term, its derivative and its multiples. -/

namespace Univariate

variable {α : Type} [Scalar α]

namespace ExponentArgument

def eval (argument : ExponentArgument α) (x : α) : α :=
  match argument with
  | .scaled factor _ => factor * x
  | .variable | .other _ => x

end ExponentArgument

namespace Wave

def eval : Wave → α → α
  | .sin => Scalar.sin
  | .cos => Scalar.cos

end Wave

namespace Term

/-- A negative power has no value at zero, and an unrecognized term counts nothing. -/
@[specialize] def eval (t : Term α) (x : α) : α :=
  match t with
  | .power c n => if n < 0 && x == 0 then Scalar.nan else c * Scalar.pow x n
  | .linear c => c * x
  | .exponential c argument => c * Scalar.exp (argument.eval x)
  | .constant value => value
  | .wave kind c => c * kind.eval x
  | .unrecognized _ => 0

def ofPower (c n : α) : Term α :=
  if n == 0 then .constant c else if n == 1 then .linear c else .power c n

/-- An exponential is its own derivative whatever its argument. -/
def derivative : Term α → Term α
  | .power c n => if n == 0 then .constant 0 else ofPower (c * n) (n - 1)
  | .linear c => .constant c
  | .exponential c argument => .exponential c argument
  | .constant _ => .constant 0
  | .wave .sin c => .wave .cos c
  | .wave .cos c => .wave .sin (-c)
  | .unrecognized _ => .constant 0

/-- Of an unrecognized term only the written sign follows the factor. -/
def scaled (factor : α) : Term α → Term α
  | .power c n => .power (c * factor) n
  | .linear c => .linear (c * factor)
  | .exponential c argument => .exponential (c * factor) argument
  | .constant value => .constant (value * factor)
  | .wave kind c => .wave kind (c * factor)
  | .unrecognized raw =>
    if factor < 0 then
      match raw with
      | '-' :: positive => .unrecognized positive
      | _ => .unrecognized ('-' :: raw)
    else .unrecognized raw

end Term

end Univariate
