import Univariate.Quadrature.Rule
import Univariate.Text.Table

/-! Several rules on one integral. A rule may fail on its own, and its error is its result. -/

namespace Univariate.Quadrature

variable {α : Type} [Scalar α]

structure Summary (α : Type) where
  a : α
  b : α
  n : Nat
  results : List (Rule × Except (Error α) α)

namespace Summary

/-- The result of the first entry of a rule. -/
def get? (s : Summary α) (rule : Rule) : Option (Except (Error α) α) :=
  (s.results.find? (·.1 == rule)).map Prod.snd

def resultText : Except (Error α) α → Text
  | .ok value => Scalar.fixed 10 value
  | .error error => "error: ".toList ++ error.message

def table (s : Summary α) : Text :=
  Text.table ["method".toList, "value".toList]
    (s.results.map fun (rule, result) => [rule.name, resultText result])

end Summary

def summarizeRules (rules : List Rule) (f : α → α) (a b : α) (n : Nat) : Summary α :=
  { a := a, b := b, n := n, results := rules.map fun rule => (rule, integrate rule f a b n) }

/-- All classic rules. Faults of the limits and pieces fail the summary as a whole. -/
def summarize (f : α → α) (a b : α) (n : Nat) : Except (Error α) (Summary α) :=
  match fault? a b n with
  | some error => .error error
  | none => .ok (summarizeRules Rule.classic f a b n)

end Univariate.Quadrature
