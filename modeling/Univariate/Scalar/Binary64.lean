import Univariate.Scalar
import Univariate.Numeral.Shortest

/-! Double precision as a scalar. -/

namespace Univariate.Binary64

/-- The nearest double. Sizes that surely vanish or overflow form no power of ten. -/
def ofNumeral : Numeral → Float
  | .nan => Float.ofBits 0x7ff8000000000000
  | .infinite negative => Float.ofBits (if negative then 0xfff0000000000000 else 0x7ff0000000000000)
  | .decimal negative digits exponent =>
    let size :=
      if digits == 0 || exponent + digits.log2 < -330 then Float.ofBits 0
      else if 310 < exponent then Float.ofBits 0x7ff0000000000000
      else Float.ofScientific digits (exponent < 0) exponent.natAbs
    if negative then -size else size

/-- A finite value as `± mantissa · 2 ^ exponent`. -/
structure Parts where
  negative : Bool
  mantissa : Nat
  exponent : Int

def parts (x : Float) : Parts :=
  let bits := x.toBits.toNat
  let field := bits / Nat.pow 2 52 % Nat.pow 2 11
  let fraction := bits % Nat.pow 2 52
  { negative := bits / Nat.pow 2 63 == 1
    mantissa := if field == 0 then fraction else Nat.pow 2 52 + fraction
    exponent := (if field == 0 then 1 else field : Nat) - 1075 }

namespace Parts

/-- The reals that round to the value. The next value below a power of two is half as far away as
the one above it, and the ends go to an even mantissa. -/
def neighbourhood (p : Parts) : Numeral.Neighbourhood :=
  let scale := Nat.pow 2 (p.exponent - 2).toNat
  let below := if p.mantissa == Nat.pow 2 52 && p.exponent != -1074 then 1 else 2
  { low := (4 * p.mantissa - below) * scale
    value := 4 * p.mantissa * scale
    high := (4 * p.mantissa + 2) * scale
    den := Nat.pow 2 (2 - p.exponent).toNat
    closed := p.mantissa % 2 == 0 }

def magnitude (p : Parts) : Rat :=
  mkRat (p.mantissa * Nat.pow 2 p.exponent.toNat) (Nat.pow 2 (-p.exponent).toNat)

end Parts

/-- The zeros keep their sign, and zero digits stand for them. -/
def toNumeral (x : Float) : Numeral :=
  if x.isNaN then .nan
  else
    let p := parts x
    if x.isFinite then
      let (digits, exponent) :=
        if p.mantissa == 0 then (0, 0) else Numeral.shortest p.neighbourhood
      .decimal p.negative digits exponent
    else .infinite p.negative

/-- Bit patterns order like their values once the negative ones are turned around. -/
def sortKey (x : Float) : Int :=
  let bits := x.toBits.toNat
  if bits / Nat.pow 2 63 == 1 then Int.pow 2 63 - 1 - bits else bits

instance : Scalar Float where
  decLt := inferInstance
  decLe := inferInstance
  ofNumeral := ofNumeral
  toNumeral := toNumeral
  magnitude x := (parts x).magnitude
  isFinite := Float.isFinite
  isNaN := Float.isNaN
  abs := Float.abs
  sqrt := Float.sqrt
  exp := Float.exp
  sin := Float.sin
  cos := Float.cos
  pow := Float.pow
  ceil := Float.ceil
  toNat x := x.toUInt64.toNat
  sortsBefore x y := sortKey x ≤ sortKey y

end Univariate.Binary64
