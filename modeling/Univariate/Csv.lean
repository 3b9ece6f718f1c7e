import Univariate.Scalar

/-! Comma-separated tables of numbers over a common grid. -/

namespace Univariate.Csv

variable {α : Type} [Scalar α]

def needsQuotes (cell : Text) : Bool :=
  cell.any fun c => c == ',' || c == '"' || c == '\r' || c == '\n'

/-- A quote inside a quoted cell is written twice. -/
def quote (cell : Text) : Text :=
  ['"'] ++ cell.flatMap (fun c => if c == '"' then ['"', '"'] else [c]) ++ ['"']

/-- An empty cell that is alone in its record is quoted, since a blank line is no record. -/
def record (cells : List Text) : Text :=
  let alone := cells == [[]]
  List.intercalate [','] (cells.map fun cell =>
    if alone || needsQuotes cell then quote cell else cell) ++ ['\n']

def records (rows : List (List Text)) : Text := rows.flatMap record

/-- Columns of numbers with a name for each; the first one is the grid. -/
structure Sheet (α : Type) where
  argument : Text
  grid : List α
  headers : List Text
  columns : List (List α)

namespace Sheet

/-- Every column has a header and one value per grid point. -/
def isComplete (s : Sheet α) : Bool :=
  s.headers.length == s.columns.length && s.columns.all (·.length == s.grid.length)

/-- What is said about a sheet that is not complete. -/
def incompleteMessage : Text :=
  "every column needs a header and one value per grid point".toList

def heading (s : Sheet α) : List Text := s.argument :: s.headers

def row (s : Sheet α) (i : Nat) (x : α) : List Text :=
  (x :: s.columns.filterMap (·[i]?)).map Scalar.plain

def rows (s : Sheet α) : List (List Text) :=
  s.grid.zipIdx.map fun (x, i) => s.row i x

def text? (s : Sheet α) : Option Text :=
  if s.isComplete then some (records (s.heading :: s.rows)) else none

/-- One column of values over their places. -/
def ofSamples (samples : List (α × α)) (argument value : Text) : Sheet α :=
  { argument, grid := samples.map Prod.fst, headers := [value], columns := [samples.map Prod.snd] }

end Sheet

end Univariate.Csv
