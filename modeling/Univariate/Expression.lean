import Univariate.Summand
import Univariate.Term.Calculus
import Univariate.Term.Reader
import Univariate.Term.Writer

/-!
Expressions: sums of terms, read from text in one of two modes, evaluated, and differentiated term by
term.
-/

namespace Univariate

variable {α : Type} [Scalar α]

/-- Whether unknown terms are kept, to count nothing, or refused. -/
inductive Strictness where
  | permissive
  | strict
deriving DecidableEq, Repr

namespace Strictness

def name : Strictness → Text
  | permissive => "permissive".toList
  | strict => "strict".toList

def ofName? (t : Text) : Option Strictness :=
  [permissive, strict].find? (·.name == t)

theorem ofName?_name (mode : Strictness) : ofName? mode.name = some mode := by
  cases mode <;> decide

end Strictness

/-- Why a text is refused in strict mode. Positions count the terms after groups are taken apart. -/
inductive ParseError where
  | unrecognizedTerm (term : Text) (position : Nat)
  | unbalancedBrackets (text : Text)
deriving DecidableEq

namespace ParseError

def message : ParseError → Text
  | unrecognizedTerm term position =>
    "Unrecognized term '".toList ++ term ++ "' at position ".toList ++ Numeral.naturalText position
  | unbalancedBrackets text => "Unbalanced brackets in '".toList ++ text ++ ['\'']

end ParseError

structure Expression (α : Type) where
  terms : List (Term α)
deriving DecidableEq

namespace Expression

/-- Each leaf becomes a term with the sign of the leaf in its coefficient. -/
def ofPieces (pieces : List Text) : Expression α :=
  ⟨(Summand.expand pieces).map fun (sign, body) => (Term.ofText body).scaled sign⟩

/-- The top-level terms of a text without its blanks. -/
def pieces (t : Text) : List Text := Summand.split t.withoutBlanks

def ofText (t : Text) : Expression α := ofPieces (pieces t)

def unrecognized (e : Expression α) : List (Term α) := e.terms.filter Term.isUnrecognized

def firstUnrecognized? (e : Expression α) : Option ParseError :=
  match e.terms.zipIdx.find? (·.1.isUnrecognized) with
  | some (t, position) => some (.unrecognizedTerm t.text position)
  | none => none

def ofTextStrict (t : Text) : Except ParseError (Expression α) :=
  if t.withoutBlanks.balanced then
    let e := ofText t
    match e.firstUnrecognized? with
    | some error => .error error
    | none => .ok e
  else .error (.unbalancedBrackets t.withoutBlanks)

def read (mode : Strictness) (t : Text) : Except ParseError (Expression α) :=
  match mode with
  | .permissive => .ok (ofText t)
  | .strict => ofTextStrict t

@[specialize] def eval (e : Expression α) (x : α) : α :=
  Scalar.sum (e.terms.map (·.eval x))

def derivative (e : Expression α) : Expression α := ⟨e.terms.map Term.derivative⟩

def nthDerivative : Nat → Expression α → Expression α
  | 0, e => e
  | n + 1, e => nthDerivative n e.derivative

def text (e : Expression α) : Text := Term.sumText e.terms

/-- Without the unrecognized terms. -/
def recognizedText (e : Expression α) : Text := Term.sumText (e.terms.filter (!·.isUnrecognized))

end Expression

/-! Values and derivatives straight from text. A value has every sign outside the term it belongs to. -/

namespace Summand

def evalLeaf (x : α) (leaf : α × Text) : α := leaf.1 * (Term.ofText leaf.2).eval x

def evalPieces (pieces : List Text) (x : α) : α :=
  Scalar.sum ((expand pieces).map (evalLeaf x))

def evalText (t : Text) (x : α) : α := evalPieces (Expression.pieces t) x

/-- One derivative for each leaf, those that are zero included. -/
def derivatives (pieces : List Text) : List (Term α) :=
  (expand pieces).map fun (sign, body) => ((Term.ofText body).scaled sign).derivative

end Summand

end Univariate
