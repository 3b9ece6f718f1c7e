import Univariate.Numeral

/-! Reading numbers. Digits are ASCII digits, and the whole text has to be the number. -/

namespace Univariate.Numeral

def digitsValue (t : Text) : Nat :=
  t.foldl (fun n c => 10 * n + (c.toNat - '0'.toNat)) 0

def natural? (t : Text) : Option Nat :=
  if !t.isEmpty && t.all Char.isDigit then some (digitsValue t) else none

/-- An unsigned 64-bit number, with an optional plus. -/
def word? (t : Text) : Option Nat :=
  let digits := match t with
    | '+' :: rest => rest
    | t => t
  (natural? digits).filter (· < Nat.pow 2 64)

/-- A signed 64-bit number, with an optional sign. -/
def integer? (t : Text) : Option Int :=
  let (negative, digits) := Text.takeSign t
  ((natural? digits).map fun n => if negative then -(n : Int) else n).filter fun n =>
    -Int.pow 2 63 ≤ n && n < Int.pow 2 63

/-- Nothing, or `e` and a whole number. -/
def exponent? : Text → Option Int
  | [] => some 0
  | c :: rest =>
    if c == 'e' || c == 'E' then
      let (negative, digits) := Text.takeSign rest
      (natural? digits).map fun n => if negative then -(n : Int) else n
    else none

/-- Digits with at most one point among or around them, and an optional exponent. -/
def magnitude? (t : Text) : Option (Nat × Int) :=
  let whole := t.takeWhile Char.isDigit
  let (fraction, rest) := match t.dropWhile Char.isDigit with
    | '.' :: rest => (rest.takeWhile Char.isDigit, rest.dropWhile Char.isDigit)
    | rest => ([], rest)
  if whole.isEmpty && fraction.isEmpty then none
  else (exponent? rest).map fun e => (digitsValue (whole ++ fraction), e - fraction.length)

/-- A decimal, or in any letter case `inf`, `infinity` or `nan`; each with an optional sign. -/
def ofText? (t : Text) : Option Numeral :=
  let (negative, body) := Text.takeSign t
  let word := String.ofList (body.map Char.toLower)
  if word == "inf" || word == "infinity" then some (.infinite negative)
  else if word == "nan" then some .nan
  else (magnitude? body).map fun (digits, exponent) => .decimal negative digits exponent

end Univariate.Numeral
