import AnswerSet.Text.Split
import AnswerSet.Text.Width

/-!
# Tables

A table is drawn with borders around every cell: a double line under the header,
dashed lines between rows and columns. A column is as wide as its widest line,
and one blank stands on either side of each text. A cell of several lines makes
its row as high.
-/

namespace AnswerSet.CommandLine

/-- The lines of a cell. -/
def cellLines (cell : String) : List (List Char) := Text.splitAt '\n' cell.toList

/-- The columns that a cell takes. -/
def cellWidth (cell : String) : Nat :=
  ((cellLines cell).map Text.width).foldl max 0

/-- The widths of the columns of a table: those of the widest cells, and at least one. -/
def columnWidths : List (List String) → List Nat
  | [] => []
  | row :: rows =>
    rows.foldl (fun widths row => widths.zipWith max (row.map cellWidth))
      (row.map fun cell => max 1 (cellWidth cell))

/-- A horizontal line: its left end, its body, its crossings and its right end. -/
structure Border where
  left : Char
  body : Char
  crossing : Char
  right : Char

/-- A horizontal line over columns of the given widths. -/
def Border.draw (border : Border) (widths : List Nat) : String :=
  let parts := widths.map fun width => List.replicate (width + 2) border.body
  .ofList (border.left :: List.intercalate [border.crossing] parts ++ [border.right])

/-- The line above a table. -/
def topBorder : Border := ⟨'┌', '─', '┬', '┐'⟩

/-- The line under the header. -/
def headerBorder : Border := ⟨'╞', '═', '╪', '╡'⟩

/-- The line between two rows. -/
def rowBorder : Border := ⟨'├', '╌', '┼', '┤'⟩

/-- The line below a table. -/
def bottomBorder : Border := ⟨'└', '─', '┴', '┘'⟩

/-- A line of a cell between its blanks. -/
def padLine (width : Nat) (line : List Char) : List Char :=
  ' ' :: line ++ List.replicate (width - Text.width line + 1) ' '

/-- One line of a row. -/
def drawLine (widths : List Nat) (lines : List (List Char)) : String :=
  .ofList ('│' :: List.intercalate ['┆'] (widths.zipWith padLine lines) ++ ['│'])

/-- The lines of a row. Cells that are lower than the row end in empty lines. -/
def drawRow (widths : List Nat) (row : List String) : List String :=
  let cells := row.map cellLines
  let height := (cells.map List.length).foldl max 0
  (List.range height).map fun i => drawLine widths (cells.map fun cell => cell[i]?.getD [])

/-- A table of a header and rows. -/
def table (header : List String) (rows : List (List String)) : String :=
  let widths := columnWidths (header :: rows)
  let body := (rows.map (drawRow widths)).intersperse [rowBorder.draw widths]
  "\n".intercalate (topBorder.draw widths :: drawRow widths header
    ++ headerBorder.draw widths :: body.flatten ++ [bottomBorder.draw widths])

end AnswerSet.CommandLine
