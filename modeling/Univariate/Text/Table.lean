import Univariate.Text.Basic

/-!
Tables in a rounded frame, with a rule between any two rows. Columns are as wide as their longest
cell; cells are filled up on the right.
-/

namespace Univariate.Text

def padRight (width : Nat) (cell : Text) : Text :=
  cell ++ List.replicate (width - cell.length) ' '

/-- The longest cell of every column of the header. -/
def columnWidths (header : List Text) (rows : List (List Text)) : List Nat :=
  rows.foldl (fun widths row => List.zipWith (fun w cell => max w cell.length) widths row)
    (header.map List.length)

def tableRow (widths : List Nat) (cells : List Text) : Text :=
  let padded := List.zipWith padRight widths cells
  "│ ".toList ++ List.intercalate " │ ".toList padded ++ " │".toList

def tableRule (left crossing right : Char) (widths : List Nat) : Text :=
  [left] ++ List.intercalate [crossing] (widths.map fun w => List.replicate (w + 2) '─') ++ [right]

def table (header : List Text) (rows : List (List Text)) : Text :=
  let widths := columnWidths header rows
  let between := ['\n'] ++ tableRule '├' '┼' '┤' widths ++ ['\n']
  tableRule '╭' '┬' '╮' widths ++ ['\n'] ++
    List.intercalate between ((header :: rows).map (tableRow widths)) ++ ['\n'] ++
    tableRule '╰' '┴' '╯' widths

end Univariate.Text
