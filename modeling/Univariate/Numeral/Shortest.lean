import Univariate.Numeral

/-!
The shortest decimal that stands for a value, when every number of an interval around the value
stands for it too.
-/

namespace Univariate.Numeral

/-- The fractions `low`, `value` and `high` over one denominator. The ends of the interval belong to
it when it is closed. -/
structure Neighbourhood where
  low : Nat
  value : Nat
  high : Nat
  den : Nat
  closed : Bool

namespace Neighbourhood

def inUnits (i : Neighbourhood) : Int → Neighbourhood
  | .ofNat n => { i with den := i.den * Nat.pow 10 n }
  | .negSucc n =>
    let scale := Nat.pow 10 (n + 1)
    { i with low := i.low * scale, value := i.value * scale, high := i.high * scale }

def contains (i : Neighbourhood) (n : Nat) : Bool :=
  if i.closed then i.low ≤ n * i.den && n * i.den ≤ i.high
  else i.low < n * i.den && n * i.den < i.high

/-- Of the whole numbers on either side of the value the nearer one inside; a tie goes up. -/
def nearest? (i : Neighbourhood) : Option Nat :=
  let below := i.value / i.den
  let above := below + 1
  match i.contains below, i.contains above with
  | true, true => some (if 2 * (i.value % i.den) < i.den then below else above)
  | true, false => some below
  | false, true => some above
  | false, false => none

def search (i : Neighbourhood) (grid : Int) : Nat → Nat × Int
  | 0 => ((i.inUnits grid).value / (i.inUnits grid).den, grid)
  | finer + 1 =>
    match (i.inUnits grid).nearest? with
    | some digits => (digits, grid)
    | none => search i (grid - 1) finer

/-- The power of ten of the first digit: an estimate from the power of two, mended by at most two. -/
def decade (i : Neighbourhood) : Int :=
  let twos : Int := (i.value.log2 : Int) - i.den.log2
  let estimate := (twos * (if twos < 0 then 30104 else 30102) - 30103) / 100000
  let reaches (n : Int) : Bool := let u := i.inUnits n; u.den ≤ u.value
  if reaches (estimate + 2) then estimate + 2
  else if reaches (estimate + 1) then estimate + 1
  else estimate

end Neighbourhood

def dropZeros (exponent : Int) : Nat → Nat → Nat × Int
  | 0, digits => (digits, exponent)
  | steps + 1, digits =>
    if digits % 10 == 0 && digits != 0 then dropZeros (exponent + 1) steps (digits / 10)
    else (digits, exponent)

/-- The decimal with the fewest digits, at most seventeen, that lies in the neighbourhood; of those
the nearest to the value. -/
def shortest (i : Neighbourhood) : Nat × Int :=
  let (digits, grid) := i.search i.decade 17
  dropZeros grid 17 digits

end Univariate.Numeral
