import SeamLint.Output.Markup

set_option autoImplicit false

/-! # Tables

A table has a title, a head and rows of cells. Every column is as wide as its widest cell,
and every cell has a space on each side.
-/

namespace SeamLint.Output

open SeamLint.Text

/-- The head of a column and the side on which its cells are flush. -/
structure Column where
  head : String
  flushRight : Bool := false
deriving DecidableEq, Repr

/-- A table. Every row has a cell for each column. -/
structure Grid where
  title : String
  columns : List Column
  rows : List (List String)
deriving DecidableEq, Repr

/-- The largest of the numbers. -/
def largest (numbers : List Nat) : Nat := numbers.foldl max 0

/-- The width of the column at an index. -/
def Grid.columnWidth (g : Grid) (index : Nat) (column : Column) : Nat :=
  largest (column.head.length :: g.rows.map fun row => (row.getD index "").length)

/-- The widths of all columns. -/
def Grid.widths (g : Grid) : List Nat :=
  g.columns.zipIdx.map fun (column, index) => g.columnWidth index column

/-- The width of the whole table: each column with its spaces and a border on the left, and
a border at the end. -/
def Grid.width (g : Grid) : Nat := g.widths.foldl (fun total width => total + (width + 3)) 1

/-- A border: the line, and the corners at its ends and between columns. -/
structure Border where
  line : Char
  left : String
  between : String
  right : String

/-- A border of a table with the given widths of columns. -/
def Border.draw (b : Border) (widths : List Nat) : String :=
  b.left ++ join b.between (widths.map fun w => String.ofList (List.replicate (w + 2) b.line)) ++
    b.right ++ "\n"

/-- Cells between vertical lines. -/
def drawCells (line : String) (cells : List String) : String :=
  line ++ join line cells ++ line ++ "\n"

/-- The cell of a row, filled up to the width of its column. -/
def fitted (column : Column) (width : Nat) (cell : String) : String :=
  if column.flushRight then padLeft width cell else padRight width cell

/-- A cell of the head. Its spaces and its text are coloured one by one. -/
def headCell (color : Bool) (column : Column) (width : Nat) : String :=
  let shown (s : String) : String := if color then coloured ["bold"] s else s
  shown " " ++ shown (fitted column width column.head) ++ shown " "

/-- A cell of a row. -/
def bodyCell (column : Column) (width : Nat) (cell : String) : String :=
  " " ++ fitted column width cell ++ " "

/-- A row of cells. -/
def Grid.drawRow (g : Grid) (row : List String) : String :=
  drawCells "│" (List.zipWith (fun (column, width) cell => bodyCell column width cell)
    (g.columns.zip g.widths) row)

/-- The head. -/
def Grid.drawHead (g : Grid) (color : Bool) : String :=
  drawCells "┃" (List.zipWith (headCell color) g.columns g.widths)

/-- The title, in the middle above the table. -/
def Grid.drawTitle (g : Grid) (color : Bool) : String :=
  let line := padBoth g.width g.title
  (if color then coloured ["italic"] line else line) ++ "\n"

/-- The table as text. -/
def Grid.draw (g : Grid) (color : Bool) : String :=
  g.drawTitle color ++
    Border.draw ⟨'━', "┏", "┳", "┓"⟩ g.widths ++
    g.drawHead color ++
    Border.draw ⟨'━', "┡", "╇", "┩"⟩ g.widths ++
    join "" (g.rows.map g.drawRow) ++
    Border.draw ⟨'─', "└", "┴", "┘"⟩ g.widths

end SeamLint.Output
