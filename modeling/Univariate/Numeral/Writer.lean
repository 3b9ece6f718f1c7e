import Univariate.Numeral

/-! Writing numbers: positional, scientific, and to a fixed number of places. -/

namespace Univariate.Numeral

def naturalText (n : Nat) : Text := Nat.toDigits 10 n

def integerText (n : Int) : Text :=
  (if n < 0 then ['-'] else []) ++ naturalText n.natAbs

def zeros (n : Nat) : Text := List.replicate n '0'

/-- Puts a point before the last `places` digits, with zeros in front where there are too few. -/
def withPoint (digits : Text) (places : Nat) : Text :=
  if places == 0 then digits
  else
    let padded := zeros (places + 1 - digits.length) ++ digits
    let whole := padded.length - places
    padded.take whole ++ ['.'] ++ padded.drop whole

def positional (digits : Nat) : Int → Text
  | .ofNat n => if digits == 0 then ['0'] else naturalText digits ++ zeros n
  | .negSucc n => withPoint (naturalText digits) (n + 1)

def leadingExponent (digits : Nat) (exponent : Int) : Int :=
  exponent + (naturalText digits).length - 1

def mantissaText (digits : Nat) : Text :=
  match naturalText digits with
  | first :: rest => first :: (if rest.isEmpty then [] else '.' :: rest)
  | [] => []

def exponential (digits : Nat) (exponent : Int) : Text :=
  mantissaText digits ++ ['e'] ++ integerText (leadingExponent digits exponent)

/-- A sign, and the texts of what is no decimal, around a way to write decimals. -/
def render (unsigned : Nat → Int → Text) : Numeral → Text
  | .nan => "NaN".toList
  | .infinite negative => (if negative then ['-'] else []) ++ "inf".toList
  | .decimal negative digits exponent =>
    (if negative then ['-'] else []) ++ unsigned digits exponent

/-- Positional at every size, and whole numbers without a point. -/
def plain : Numeral → Text := render positional

/-- One digit before the point, and always an exponent. -/
def scientific : Numeral → Text := render exponential

/-- Positional with at least one digit after the point from `10⁻⁴` up to `10¹⁶`, scientific outside. -/
def literal : Numeral → Text :=
  render fun digits exponent =>
    let size := leadingExponent digits exponent
    if digits != 0 && (size < -4 || 16 ≤ size) then exponential digits exponent
    else positional digits exponent ++ (if 0 ≤ exponent then ['.', '0'] else [])

/-- The natural number nearest to a quotient; a half goes to the even neighbour. -/
def roundQuotient (num den : Nat) : Nat :=
  let quotient := num / den
  let twice := 2 * (num % den)
  if twice < den || (twice == den && quotient % 2 == 0) then quotient else quotient + 1

def fixedPlaces (places : Nat) (value : Rat) : Text :=
  withPoint (naturalText (roundQuotient (value.num.natAbs * Nat.pow 10 places) value.den)) places

end Univariate.Numeral
