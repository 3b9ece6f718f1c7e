import Univariate.Root.Error

/-! Bisection: a bracket around a change of sign is halved until a stopping rule holds. -/

namespace Univariate.Root

variable {α : Type} [Scalar α]

structure Bisection (α : Type) [Scalar α] where
  tolerance : α := 1e-8
  maxIterations : Nat := 100
  verbose : Bool := false

structure Outcome (α : Type) where
  root : α
  value : α
  iterations : Nat
  converged : Bool
deriving DecidableEq

/-- An interval together with the value at its lower end. -/
structure Bracket (α : Type) where
  lo : α
  hi : α
  atLo : α

namespace Bracket

def width (b : Bracket α) : α := b.hi - b.lo

def midpoint (b : Bracket α) : α := (b.lo + b.hi) / 2

/-- The half in which the sign changes, given the value at the midpoint. -/
def half (b : Bracket α) (atMidpoint : α) : Bracket α :=
  if b.atLo * atMidpoint < 0 then { b with hi := b.midpoint }
  else { b with lo := b.midpoint, atLo := atMidpoint }

end Bracket

namespace Bisection

def method : Text := "bisection".toList

/-- Beyond this size a value counts as divergent. -/
def divergenceGuard : α := 1e10

def finish (s : Bisection α) (f : α → α) (done : Nat) (b : Bracket α) : Outcome α :=
  { root := b.midpoint
    value := f b.midpoint
    iterations := done
    converged := b.width ≤ s.tolerance }

@[specialize] def refine (s : Bisection α) (f : α → α) (done : Nat) (b : Bracket α) :
    Nat → Except (Error α) (Outcome α)
  | 0 => .ok (s.finish f done b)
  | remaining + 1 =>
    if s.tolerance < b.width then
      let c := b.midpoint
      let value := f c
      if !Scalar.isFinite value || divergenceGuard < Scalar.abs value then
        .error (.divergentMidpoint c)
      else if Scalar.abs value < s.tolerance then
        .ok { root := c, value := value, iterations := done + 1, converged := true }
      else refine s f (done + 1) (b.half value) remaining
    else .ok (s.finish f done b)

/-- On an ordered interval. A value within the tolerance at an end is a root, the lower end first. -/
@[specialize] def runOrdered (s : Bisection α) (f : α → α) (lo hi : α) :
    Except (Error α) (Outcome α) :=
  let atLo := f lo
  let atHi := f hi
  if !Scalar.isFinite atLo || !Scalar.isFinite atHi then .error .nonFiniteEndpoint
  else if 0 < atLo * atHi then .error .noSignChange
  else if Scalar.abs atLo < s.tolerance then
    .ok { root := lo, value := atLo, iterations := 0, converged := true }
  else if Scalar.abs atHi < s.tolerance then
    .ok { root := hi, value := atHi, iterations := 0, converged := true }
  else refine s f 0 ⟨lo, hi, atLo⟩ s.maxIterations

@[specialize] def run (s : Bisection α) (f : α → α) (a b : α) : Except (Error α) (Outcome α) :=
  if !Scalar.isFinite a || !Scalar.isFinite b || a == b then .error .invalidInterval
  else if b < a then runOrdered s f b a
  else runOrdered s f a b

end Bisection

def bisect (f : α → α) (a b tolerance : α) : Except (Error α) α :=
  (Bisection.run { tolerance := tolerance } f a b).map Outcome.root

end Univariate.Root
