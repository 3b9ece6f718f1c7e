import Univariate.Term

/-! Terms and sums of terms as text. -/

namespace Univariate

variable {α : Type} [Scalar α]

/-- A zero is written without its sign. -/
def numberText (x : α) : Text :=
  if x == 0 then ['0'] else Scalar.plain x

/-- A factor of one is not written, and of minus one only the sign. -/
def coefficientText (c : α) : Text :=
  if c == 1 then [] else if c == -1 then ['-'] else numberText c

namespace Wave

def text : Wave → Text
  | .sin => ['s', 'i', 'n']
  | .cos => ['c', 'o', 's']

end Wave

namespace ExponentArgument

def text : ExponentArgument α → Text
  | .variable => ['x']
  | .scaled _ raw | .other raw => ['('] ++ raw ++ [')']

end ExponentArgument

namespace Term

def text : Term α → Text
  | .power c n => coefficientText c ++ ['x', '^'] ++ numberText n
  | .linear c => coefficientText c ++ ['x']
  | .exponential c argument => coefficientText c ++ ['e', '^'] ++ argument.text
  | .constant value => numberText value
  | .wave kind c => coefficientText c ++ kind.text ++ ['(', 'x', ')']
  | .unrecognized raw => raw

/-- The text of a term after another one: its sign becomes the operator. -/
def joined (t : Text) : Text :=
  match t with
  | '-' :: positive => [' ', '-', ' '] ++ positive
  | _ => [' ', '+', ' '] ++ t

/-- The first text that is not empty starts the sum. -/
def joinTexts (texts : List Text) : Text :=
  texts.foldl (fun sum t => if sum.isEmpty then t else sum ++ joined t) []

def sumText (terms : List (Term α)) : Text :=
  let sum := joinTexts ((terms.filter (!·.isZero)).map text)
  if sum.isEmpty then ['0'] else sum

end Term

end Univariate
