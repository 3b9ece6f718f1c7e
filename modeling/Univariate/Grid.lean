import Univariate.Expression

/-! Functions on evenly spaced points. -/

namespace Univariate

variable {α : Type} [Scalar α]

namespace Grid

/-- So many points from `start` to `stop`. Fewer than two all lie at `start`. -/
def points (start stop : α) (count : Nat) : List α :=
  if count < 2 then List.replicate count start
  else
    let step := (stop - start) / (Scalar.ofNat count - 1)
    (List.range count).map fun i => start + Scalar.ofNat i * step

def centralDifference (f : α → α) (h x : α) : α :=
  (f (x + h) - f (x - h)) / (2 * h)

/-- The Euclidean distance divided by the number of places. Lists of different lengths have none. -/
def distance? (xs ys : List α) : Option α :=
  if xs.length != ys.length then none
  else if xs.isEmpty then some 0
  else
    let squares := List.zipWith (fun x y => (x - y) * (x - y)) xs ys
    some (1 / Scalar.ofNat xs.length * Scalar.sqrt (Scalar.sum squares))

def sample (f : α → α) (start stop : α) (count : Nat) : List (α × α) :=
  (points start stop count).map fun x => (x, f x)

end Grid

namespace Expression

def derivativeError (e : Expression α) (start stop : α) (count : Nat) : α :=
  let grid := Grid.points start stop count
  let differences := grid.map (Grid.centralDifference e.eval 1e-6)
  (Grid.distance? differences (grid.map e.derivative.eval)).getD 0

def plot (t : Text) (start stop : α) (count : Nat) : List (α × α) :=
  if t.withoutBlanks.isEmpty then [] else Grid.sample (ofText t).eval start stop count

end Expression

end Univariate
