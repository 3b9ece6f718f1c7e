import Univariate.Root.Bisection

/-!
The sweep: a range is cut into pieces, and bisection runs on every piece whose samples change sign or
come close to zero.
-/

namespace Univariate.Root

variable {α : Type} [Scalar α]

/-- What becomes of a piece that ends next to zero: it is not searched, or its end is moved off. -/
inductive ZeroPolicy where
  | skip
  | nudge
deriving DecidableEq, Repr

namespace ZeroPolicy

def name : ZeroPolicy → Text
  | skip => "skip".toList
  | nudge => "nudge".toList

def ofName? (t : Text) : Option ZeroPolicy := [skip, nudge].find? (·.name == t)

theorem ofName?_name (policy : ZeroPolicy) : ofName? policy.name = some policy := by
  cases policy <;> decide

end ZeroPolicy

structure Sweep (α : Type) [Scalar α] where
  granularity : α := 0.1
  tolerance : α := 1e-6
  maxIterations : Nat := 100
  /-- Wider ranges get pieces of at least their `targetPieces`-th part. -/
  widenAbove : α := 10
  targetPieces : Nat := 100
  maxPieces : Nat := 1000000
  zeroGuard : α := 1e-10
  zeroPolicy : ZeroPolicy := .skip
  magnitudeGuard : α := 1e8
  acceptance : α := 1e-4
  duplicateFactor : α := 100

namespace Sweep

def pieceWidth (s : Sweep α) (start stop : α) : α :=
  let range := stop - start
  if s.widenAbove < range then Scalar.max s.granularity (range / Scalar.ofNat s.targetPieces)
  else s.granularity

/-- A scalar, since it may be larger than any machine word. -/
def pieceCount (s : Sweep α) (start stop : α) : α :=
  Scalar.ceil ((stop - start) / s.pieceWidth start stop)

def stepCount (s : Sweep α) (start stop : α) : Nat :=
  Scalar.toNat (Scalar.min (s.pieceCount start stop) (Scalar.ofNat s.maxPieces))

def step (start stop width : α) (k : Nat) : α × α :=
  (start + Scalar.ofNat k * width, Scalar.min (start + Scalar.ofNat (k + 1) * width) stop)

@[specialize] def pieces (s : Sweep α) (start stop : α) : List (α × α) :=
  let width := s.pieceWidth start stop
  ((List.range (s.stepCount start stop)).map (step start stop width)).filter fun p => p.1 < p.2

/-- The first pieces of the steps from the `k`-th on, without a look at the steps behind them. -/
def takePieces (start stop width : α) (k : Nat) : (remaining limit : Nat) → List (α × α)
  | 0, _ | _, 0 => []
  | remaining + 1, limit + 1 =>
    let piece := step start stop width k
    if piece.1 < piece.2 then piece :: takePieces start stop width (k + 1) remaining limit
    else takePieces start stop width (k + 1) remaining (limit + 1)

def firstPieces (s : Sweep α) (start stop : α) (limit : Nat) : List (α × α) :=
  takePieces start stop (s.pieceWidth start stop) 0 (s.stepCount start stop) limit

theorem takePieces_eq (start stop width : α) (k remaining limit : Nat) :
    takePieces start stop width k remaining limit =
      (((List.range' k remaining).map (step start stop width)).filter fun p => p.1 < p.2).take
        limit := by
  induction remaining generalizing k limit with
  | zero => simp [takePieces]
  | succ remaining ih =>
    cases limit with
    | zero => simp [takePieces]
    | succ limit =>
      by_cases h : (step start stop width k).1 < (step start stop width k).2 <;>
        simp [takePieces, List.range'_succ, h, ih]

theorem firstPieces_eq_take (s : Sweep α) (start stop : α) (limit : Nat) :
    s.firstPieces start stop limit = (s.pieces start stop).take limit := by
  rw [firstPieces, takePieces_eq, pieces, List.range_eq_range']

def fault? (s : Sweep α) (start stop : α) : Option (Error α) :=
  if !Scalar.isFinite start || !Scalar.isFinite stop || stop ≤ start then some .invalidInterval
  else if !(0 < s.granularity) || !Scalar.isFinite s.granularity then
    some (.unfitSweep (.granularity s.granularity))
  else if !(0 < s.tolerance) then some (.unfitSweep (.tolerance s.tolerance))
  else if s.targetPieces == 0 then some (.unfitSweep .noTargetPieces)
  else
    let count := s.pieceCount start stop
    if count ≤ Scalar.ofNat s.maxPieces then none
    else some (.unfitSweep (.tooManyPieces s.granularity count start stop s.maxPieces))

/-- Nothing when the piece is to be skipped. -/
def guardEnd? (s : Sweep α) (x : α) : Option α :=
  if s.zeroGuard ≤ Scalar.abs x then some x
  else
    match s.zeroPolicy with
    | .skip => none
    | .nudge => some (if x < 0 then -s.zeroGuard else s.zeroGuard)

def isTame (s : Sweep α) (sample : α) : Bool :=
  Scalar.isFinite sample && !(s.magnitudeGuard < Scalar.abs sample)

def excludesRoot (s : Sweep α) (atLo atHi : α) : Bool :=
  0 < atLo * atHi && s.tolerance ≤ Scalar.abs atLo && s.tolerance ≤ Scalar.abs atHi

def bisection (s : Sweep α) : Bisection α :=
  { tolerance := s.tolerance, maxIterations := s.maxIterations }

def accepts (s : Sweep α) (f : α → α) (start stop root : α) : Bool :=
  let value := f root
  !(root < start || stop < root) && Scalar.isFinite value && !(s.acceptance ≤ Scalar.abs value)

@[specialize] def candidate? (s : Sweep α) (f : α → α) (start stop : α) (piece : α × α) : Option α :=
  match s.guardEnd? piece.1, s.guardEnd? piece.2 with
  | some lo, some hi =>
    let atLo := f lo
    let atHi := f hi
    if !s.isTame atLo || !s.isTame atHi || s.excludesRoot atLo atHi then none
    else
      match s.bisection.run f lo hi with
      | .ok outcome => if s.accepts f start stop outcome.root then some outcome.root else none
      | .error _ => none
  | _, _ => none

def duplicateDistance (s : Sweep α) : α := s.tolerance * s.duplicateFactor

@[specialize] def isDuplicate (distance : α) (roots : List α) (root : α) : Bool :=
  roots.any fun r => Scalar.abs (r - root) < distance

/-- The last root found comes first. -/
@[specialize] def insert (distance : α) (roots : List α) (root : α) : List α :=
  if isDuplicate distance roots root then roots else root :: roots

@[specialize] def run (s : Sweep α) (f : α → α) (start stop : α) : Except (Error α) (List α) :=
  match s.fault? start stop with
  | some error => .error error
  | none =>
    let found := (s.pieces start stop).filterMap (s.candidate? f start stop)
    .ok ((found.foldl (insert s.duplicateDistance) []).mergeSort Scalar.sortsBefore)

end Sweep

end Univariate.Root
