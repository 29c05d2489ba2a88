import MathMarkup.Text.Rune

/-!
# Aligned columns

Lines of cells are written so that cells under each other start at the same place. The last cell of
a line belongs to no column. A column runs over neighbouring lines that have a cell in it; it is as
wide as its widest cell, and two blanks.
-/

namespace MathMarkup.Output.Columns

/-- The blanks between columns. -/
def padding : Nat := 2

/-- The cells of a line, which end at tabs of either direction. -/
def cells (line : Text) : List Text :=
  Text.splitByte (Text.byte '\t') (line.map fun b => if b == 0x0B then Text.byte '\t' else b)

/-- The widths of a column over neighbouring lines: every line of a run takes the largest width of
the run. A line without a cell in the column ends a run. The first argument holds the run so far,
whose largest width is the second. -/
def runWidths (run : Nat) (widest : Nat) : List (Option Nat) → List Nat
  | [] => List.replicate run widest
  | some w :: rest => runWidths (run + 1) (max widest w) rest
  | none :: rest => List.replicate run widest ++ 0 :: runWidths 0 0 rest

/-- The width of the cell of a line in a column, if it has one there that is not its last. -/
def width? (column : Nat) (cells : List Text) : Option Nat :=
  if column + 1 < cells.length then (cells[column]?).map (Text.runeCount ·) else none

/-- The widths of a column, line by line. -/
def columnWidths (lines : List (List Text)) (column : Nat) : List Nat :=
  runWidths 0 0 (lines.map (width? column))

/-- A cell with blanks up to a width and the blanks between columns. -/
def padded (cell : Text) (width : Nat) : Text :=
  cell ++ List.replicate (width + padding - Text.runeCount cell) (Text.byte ' ')

/-- The text of a line whose columns have the given widths. -/
def lineText (line : List Text) (widths : List Nat) : Text :=
  match line with
  | [] => []
  | [last] => last
  | cell :: next :: rest => padded cell (widths.headD 0) ++ lineText (next :: rest) (widths.drop 1)

/-- The widths of all columns of each line. -/
def lineWidths (lines : List (List Text)) : List (List Nat) :=
  let count := lines.foldl (fun n l => max n l.length) 0
  let columns := (List.range count).map (columnWidths lines)
  (List.range lines.length).map fun i => columns.map fun widths => (widths[i]?).getD 0

/-- Lines with their cells aligned. -/
def alignLines (lines : List (List Text)) : List Text :=
  (lines.zip (lineWidths lines)).map fun (l, ws) => lineText l ws

/-- A text whose lines are divided into cells, aligned. A form feed ends a line and every column. -/
def align (t : Text) : Text :=
  Text.join "\n" ((Text.splitByte 0x0C t).map fun part =>
    Text.join "\n" (alignLines ((Text.splitByte (Text.byte '\n') part).map cells)))

end MathMarkup.Output.Columns
