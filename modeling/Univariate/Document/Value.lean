import Univariate.Scalar

/-! Values in documents, typed by what their text reads as. -/

namespace Univariate.Document

inductive Value (α : Type) where
  | integer (n : Int)
  | number (x : α)
  | truth (b : Bool)
  | text (t : Text)
deriving DecidableEq

variable {α : Type} [Scalar α]

namespace Value

/-- The first of integer, number, truth value and text that fits. -/
def ofText (t : Text) : Value α :=
  match Numeral.integer? t, Scalar.ofText? t with
  | some n, _ => .integer n
  | none, some x => .number x
  | none, none =>
    if t == "true".toList then .truth true
    else if t == "false".toList then .truth false
    else .text t

def render : Value α → Text
  | integer n => Numeral.integerText n
  | number x => Scalar.plain x
  | truth b => (if b then "true" else "false").toList
  | text t => t

/-- Integers count as numbers. -/
def number? : Value α → Option α
  | integer n => some (Scalar.ofInt n)
  | number x => some x
  | _ => none

def integer? : Value α → Option Int
  | integer n => some n
  | _ => none

def truth? : Value α → Option Bool
  | truth b => some b
  | _ => none

end Value

end Univariate.Document
