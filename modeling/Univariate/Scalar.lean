import Univariate.Numeral.Reader
import Univariate.Numeral.Writer

/-!
The numbers that everything else computes with. Laws about exact arithmetic and runs in floating
point speak about the same definitions, each at its own instance.
-/

namespace Univariate

/-- Ordered arithmetic with values that are not finite. Comparisons with a value that is no number
are false. -/
class Scalar (α : Type) extends Add α, Sub α, Mul α, Div α, Neg α, LT α, LE α, BEq α where
  decLt : DecidableLT α
  decLe : DecidableLE α
  ofNumeral : Numeral → α
  /-- The shortest written number whose nearest value this is. -/
  toNumeral : α → Numeral
  /-- The size of a finite value as a fraction. -/
  magnitude : α → Rat
  isFinite : α → Bool
  isNaN : α → Bool
  abs : α → α
  sqrt : α → α
  exp : α → α
  sin : α → α
  cos : α → α
  pow : α → α → α
  ceil : α → α
  /-- Cut to a natural number that fits 64 bits: the bounds at both ends, zero for no number. -/
  toNat : α → Nat
  /-- A total order, in which `-0` comes before `0`. -/
  sortsBefore : α → α → Bool

namespace Scalar

variable {α : Type} [Scalar α]

instance (x y : α) : Decidable (x < y) := decLt x y

instance (x y : α) : Decidable (x ≤ y) := decLe x y

instance (priority := low) (n : Nat) : OfNat α n := ⟨ofNumeral (.ofNat n)⟩

instance (priority := low) : OfScientific α :=
  ⟨fun digits negative exponent =>
    ofNumeral (.decimal false digits (if negative then -(exponent : Int) else exponent))⟩

def ofNat (n : Nat) : α := ofNumeral (.ofNat n)

def ofInt (n : Int) : α := ofNumeral (.ofInt n)

def nan : α := ofNumeral .nan

/-- The sum of nothing: added to `-0` every value stays what it is. -/
def negativeZero : α := ofNumeral (.decimal true 0 0)

/-- From left to right. -/
@[specialize] def sum (values : List α) : α := values.foldl (· + ·) negativeZero

/-- The other value when one is no number. -/
def min (x y : α) : α := if isNaN x then y else if y < x then y else x

def max (x y : α) : α := if isNaN x then y else if x < y then y else x

def ofText? (t : Text) : Option α := (Numeral.ofText? t).map ofNumeral

def plain (x : α) : Text := (toNumeral x).plain

def scientific (x : α) : Text := (toNumeral x).scientific

def literal (x : α) : Text := (toNumeral x).literal

/-- Rounded to so many places after the point, a half to the even neighbour. -/
def fixed (places : Nat) (x : α) : Text :=
  match toNumeral x with
  | .decimal negative _ _ => (if negative then ['-'] else []) ++ Numeral.fixedPlaces places (magnitude x)
  | other => other.plain

end Scalar

end Univariate
