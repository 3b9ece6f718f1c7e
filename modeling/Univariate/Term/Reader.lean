import Univariate.Term
import Univariate.Text.Blank
import Univariate.Text.DecimalDigit

/-!
Reading one term. Every shape but the constant is a coefficient followed by a fixed text or by `^`
and an exponent, and the text after the coefficient decides the shape.
-/

namespace Univariate

open Text (isDecimalDigit)

variable {α : Type} [Scalar α]

namespace Coefficient

/-- Splits after the longest part that can be a coefficient: an optional sign, digits, and digits
after an optional point. -/
def span (isDigit : Char → Bool) (t : Text) : Text × Text :=
  let sign := match t with
    | c :: _ => if c == '+' || c == '-' then [c] else []
    | [] => []
  let unsigned := t.drop sign.length
  let whole := unsigned.takeWhile isDigit
  match unsigned.dropWhile isDigit with
  | '.' :: rest => (sign ++ whole ++ ['.'] ++ rest.takeWhile isDigit, rest.dropWhile isDigit)
  | rest => (sign ++ whole, rest)

theorem append_span (isDigit : Char → Bool) (t : Text) :
    (span isDigit t).1 ++ (span isDigit t).2 = t := by
  have hsign : ∀ s : Text, (match s with
      | c :: _ => if c == '+' || c == '-' then [c] else []
      | [] => []) ++ s.drop (match s with
      | c :: _ => if c == '+' || c == '-' then [c] else []
      | [] => ([] : Text)).length = s := by
    intro s
    cases s with
    | nil => rfl
    | cons c s => dsimp only; split <;> rfl
  conv => rhs; rw [← hsign t]
  unfold span
  dsimp only
  generalize (t.drop _) = unsigned
  split
  · rename_i rest h
    have := List.takeWhile_append_dropWhile (p := isDigit) (l := unsigned)
    rw [h] at this
    have hrest := List.takeWhile_append_dropWhile (p := isDigit) (l := rest)
    conv => rhs; rw [← this, ← hrest]
    simp
  · rw [List.append_assoc, List.takeWhile_append_dropWhile]

/-- Nothing means one, and a sign alone means one with that sign. -/
def ofText? : Text → Option α
  | [] | ['+'] => some 1
  | ['-'] => some (-1)
  | t => Scalar.ofText? t

end Coefficient

/-- A sign is optional, and a point stands between digits. -/
def isSignedNumber (t : Text) : Bool :=
  let (_, unsigned) := t.takeSign
  let whole := unsigned.takeWhile Char.isDigit
  !whole.isEmpty &&
    match unsigned.dropWhile Char.isDigit with
    | [] => true
    | '.' :: fraction => !fraction.isEmpty && fraction.all Char.isDigit
    | _ => false

/-- The number that a text starts with. Digits of every script count for where it ends, but only
ASCII digits can be read. -/
def leadingNumber? (t : Text) : Option α :=
  let (number, _) := Coefficient.span isDecimalDigit t
  if number.any isDecimalDigit then Scalar.ofText? number else none

namespace ExponentArgument

def ofText (raw : Text) : ExponentArgument α :=
  if raw.isEmpty || raw == ['x'] then .variable
  else
    match leadingNumber? raw with
    | some factor => .scaled factor raw
    | none => .other raw

def isBare (t : Text) : Bool :=
  t.takeSign.2.all fun c => c.isAlphanum || c == '.'

/-- The argument without the brackets around it, which need to enclose no others. -/
def raw? (t : Text) : Option Text :=
  match t with
  | '(' :: rest =>
    let inner := rest.dropLast
    if rest.getLast? == some ')' && !inner.contains '(' && !inner.contains ')' then some inner
    else none
  | _ => if isBare t then some t else none

end ExponentArgument

namespace Term

def ofTail? (c : α) (tail : Text) : Option (Term α) :=
  match tail with
  | ['x'] => some (.linear c)
  | 'x' :: '^' :: exponent =>
    if isSignedNumber exponent then (Scalar.ofText? exponent).map (.power c) else none
  | 'e' :: '^' :: argument =>
    (ExponentArgument.raw? argument).map fun raw => .exponential c (.ofText raw)
  | ['s', 'i', 'n', '(', 'x', ')'] => some (.wave .sin c)
  | ['c', 'o', 's', '(', 'x', ')'] => some (.wave .cos c)
  | _ => none

def ofTrimmed? (t : Text) : Option (Term α) :=
  if isSignedNumber t then (Scalar.ofText? t).map .constant
  else
    let (coefficient, tail) := Coefficient.span Char.isDigit t
    (Coefficient.ofText? coefficient).bind (ofTail? · tail)

/-- Never fails: a text of no known shape is kept as an unrecognized term. -/
def ofText (t : Text) : Term α :=
  (ofTrimmed? t.trim).getD (.unrecognized t.trim)

end Term

end Univariate
