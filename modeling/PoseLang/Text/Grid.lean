import PoseLang.Text.Width

/-!
# Grids of cells

Grids: a header and rows of cells inside lines. A column is as wide as its widest cell, and a cell
of several lines makes its row as high.
-/

namespace PoseLang.Text.Grid

/-- The lines of a cell. -/
def cellLines (cell : String) : List String :=
  cell.splitOn "\n"

/-- The number of columns that a cell takes on a terminal. -/
def cellWidth (cell : String) : Nat :=
  ((cellLines cell).map width).foldl max 0

/-- The widths of the columns of rows that have as many cells. -/
def columnWidths (rows : List (List String)) : List Nat :=
  match rows with
  | [] => []
  | row :: rest =>
    let widen (widths : List Nat) (cells : List String) : List Nat :=
      widths.zipWith (fun w c => max w (cellWidth c)) cells
    rest.foldl widen (row.map cellWidth)

/-- A line between rows: its left end, what it consists of, its crossings and its right end. -/
structure Rule where
  left : String
  fill : Char
  crossing : String
  right : String

/-- The line above the header. -/
def topRule : Rule :=
  ⟨"┌", '─', "┬", "┐"⟩

/-- The line below the header. -/
def headerRule : Rule :=
  ⟨"╞", '═', "╪", "╡"⟩

/-- The line between two rows. -/
def innerRule : Rule :=
  ⟨"├", '╌', "┼", "┤"⟩

/-- The line below the last row. -/
def bottomRule : Rule :=
  ⟨"└", '─', "┴", "┘"⟩

/-- A line over columns of some widths; every cell has a space on both sides. -/
def Rule.line (r : Rule) (widths : List Nat) : String :=
  let stretch (w : Nat) : String := String.ofList (List.replicate (w + 2) r.fill)
  r.left ++ r.crossing.intercalate (widths.map stretch) ++ r.right

/-- A text filled up with spaces. -/
def padded (s : String) (w : Nat) : String :=
  s ++ String.ofList (List.replicate (w - width s) ' ')

/-- The lines of a row of cells. -/
def rowLines (widths : List Nat) (row : List String) : List String :=
  let cells := row.map cellLines
  let height := (cells.map List.length).foldl max 1
  (List.range height).map fun i =>
    let parts := cells.zipWith (fun ls w => padded (ls[i]?.getD "") w) widths
    "│ " ++ " ┆ ".intercalate parts ++ " │"

/-- The lines of rows, with a line between every two. -/
def bodyLines (widths : List Nat) : List (List String) → List String
  | [] => []
  | [row] => rowLines widths row
  | row :: rows => rowLines widths row ++ innerRule.line widths :: bodyLines widths rows

/-- A grid of a header and rows that have as many cells. -/
def render (header : List String) (rows : List (List String)) : String :=
  let widths := columnWidths (header :: rows)
  "\n".intercalate
    (topRule.line widths :: rowLines widths header ++ headerRule.line widths ::
      bodyLines widths rows ++ [bottomRule.line widths])

end PoseLang.Text.Grid
