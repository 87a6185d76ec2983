import CourseAdmission.Text.Lines

/-!
Tables drawn with characters: a frame, a double line under the heads, a line between the rows.
-/

namespace CourseAdmission.Text.Grid

/-- The greatest length of a text in each column, at least that of its head. -/
def widths (heads : List String) (rows : List (List String)) : List Nat :=
  rows.foldl (fun widths row => List.zipWith (fun width cell => max width cell.length) widths row)
    (heads.map String.length)

/-- A row with a blank at either side of each text. -/
def row (widths : List Nat) (cells : List String) : String :=
  let padded := List.zipWith (fun width cell => " " ++ padRight width cell ++ " |") widths cells
  "|" ++ String.join padded

/-- A line across the table: what it begins and ends with, what it is drawn with, and what it draws
    where columns meet. -/
def line (widths : List Nat) (edge : String) (stroke : Char) (crossing : String) : String :=
  let strokes := widths.map fun width => String.ofList (List.replicate (width + 2) stroke)
  edge ++ crossing.intercalate strokes ++ edge

/-- The table, line by line. -/
def lines (heads : List String) (rows : List (List String)) : List String :=
  let widths := widths heads rows
  let frame := line widths "+" '-' "+"
  [frame, row widths heads, line widths "+" '=' "="] ++
    ((rows.map (row widths)).intersperse (line widths "|" '-' "+")) ++ [frame]

end CourseAdmission.Text.Grid
