import Scaffold.Text.Split
import Scaffold.Text.Width

/-!
# Tables

Rows of cells between rules. A column is as wide as its widest line, with a blank on each side, and
a row as high as its highest cell; text stands at the top left of its cell.
-/

namespace Scaffold.Table

/-- The lines of a cell. -/
def cellLines (cell : String) : List String :=
  (Text.splitOn '\n' cell.toList).map String.ofList

/-- The columns that a cell needs. -/
def cellWidth (cell : String) : Nat := ((cellLines cell).map Text.width).foldl max 0

/-- The widths of the columns. -/
def columnWidths (rows : List (List String)) : List Nat :=
  rows.foldl (fun widths row ↦ widths.zipWith max (row.map cellWidth))
    ((rows.head?.getD []).map fun _ ↦ 0)

/-- The rule between two rows. -/
def rule (widths : List Nat) : String :=
  "+" ++ String.join (widths.map fun w ↦ String.ofList (List.replicate (w + 2) '-') ++ "+")

/-- A line of a cell, filled up to a width. -/
def pad (width : Nat) (line : String) : String :=
  line ++ String.ofList (List.replicate (width - Text.width line) ' ')

/-- The lines of a row. -/
def rowLines (widths : List Nat) (row : List String) : List String :=
  let cells := row.map cellLines
  let height := (cells.map List.length).foldl max 1
  (List.range height).map fun i ↦
    "|" ++ String.join ((widths.zip cells).map fun (w, lines) ↦
      " " ++ pad w (lines[i]?.getD "") ++ " |")

/-- A table with a header. -/
def render (header : List String) (rows : List (List String)) : String :=
  let rows := header :: rows
  let widths := columnWidths rows
  let lines := rows.flatMap fun row ↦ rule widths :: rowLines widths row
  "\n".intercalate (lines ++ [rule widths])

end Scaffold.Table
