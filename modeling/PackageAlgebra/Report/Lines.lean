import PackageAlgebra.Text.Blank
import PackageAlgebra.Text.Pieces

/-!
# Lines of a Report

Lines with tabs as a table, and an outline without its blank lines.

The last cell of a line is never padded and does not widen its column; lines may
have different numbers of cells.

## Main definitions

* `Report.columnWidths`: The widths of the columns, collected line by line.
* `Report.align`: Lines with tabs, their cells set in columns.
* `Report.fullLines`: A text without its blank lines.
-/

namespace PackageAlgebra.Report

/-- The widths of columns as they are after the cells of one more line. -/
def widen : List Nat → List String → List Nat
  | widths, [] => widths
  | [], cell :: rest => cell.length :: widen [] rest
  | width :: widths, cell :: rest => max width cell.length :: widen widths rest

/-- The widths of all columns, each that of its widest cell, the last cells of lines not
    counted. -/
def columnWidths (rows : List (List String)) : List Nat :=
  rows.foldl (fun widths cells => widen widths cells.dropLast) []

/-- The width of a column. -/
def columnWidth (rows : List (List String)) (column : Nat) : Nat :=
  (columnWidths rows)[column]?.getD 0

/-- A cell filled up with blanks to a width. -/
def padRight (width : Int) (cell : String) : String :=
  cell ++ String.ofList (List.replicate (width - cell.length).toNat ' ')

/-- The cells of a line as one text, all but the last filled up to the widths of
    their columns. -/
def alignRow (width : Nat → Int) (column : Nat) : List String → String
  | [] => ""
  | [cell] => cell
  | cell :: rest => padRight (width column) cell ++ alignRow width (column + 1) rest

/-- Lines with tabs, their cells set in columns that stand `padding` apart. -/
def align (lines : List String) (padding : Int) : List String :=
  let rows := lines.map (Text.split '\t')
  rows.map (alignRow (fun i => columnWidth rows i + padding) 0)

/-- The padding between columns unless something else is said. -/
def defaultPadding : Int := 3

/-- A text without its blank lines. -/
def fullLines (text : String) : String :=
  Text.join "\n" ((Text.lines text).filter fun line => Text.trim line ≠ "")

end PackageAlgebra.Report
