import LeastSquares.Association.Basic

/-!
# Association matrices as tables

A matrix is written as lines of cells, twelve characters wide and separated by
tabs: a header with the column ids, an empty line, one line for each row, and an
empty line at the end.  Columns and rows are in ascending order of their ids.  A
pair of ids without a weight has a blank cell, which a weight of zero has not.
-/

namespace LeastSquares.Association

/-- The width of a cell. -/
def cellWidth : Nat := 12

/-- A text cut to the width of a cell and aligned to the right. -/
def cell (text : List Char) : List Char :=
  let shown := text.take cellWidth
  List.replicate (cellWidth - shown.length) ' ' ++ shown

/-- The cell of a pair of ids without a weight. -/
def blankCell : List Char := cell []

/-- The cell of an id. -/
def idCell (id : Int) : List Char := cell (Decimal.ofInt id).toList

/-- The cell of a weight: its text at 32 bits, after a space when it is not
negative, so that the digits line up. -/
def weightCell (weight : Float) : List Char :=
  let text := Decimal.Text32.write weight
  cell (if 0.0 ≤ weight then ' ' :: text else text)

/-- The cells of a row under the given columns. -/
def rowCells (m : Association) (columnIds : List Int) (rowId : Int) : List (List Char) :=
  idCell rowId :: columnIds.map fun columnId =>
    ((m.row rowId).get? columnId).elim blankCell weightCell

/-- The lines of a table. -/
def tableLines (m : Association) (rowIds columnIds : List Int) : List (List Char) :=
  let line (cells : List (List Char)) := ['\t'].intercalate cells
  line (blankCell :: columnIds.map idCell) :: [] ::
    rowIds.map fun rowId => line (m.rowCells columnIds rowId)

/-- The characters of the table of a matrix. -/
def tableChars (m : Association) : Except Failure (List Char) := do
  let columnIds ← m.columnIds
  let rowIds ← m.rowIds
  return ['\n'].intercalate (m.tableLines rowIds columnIds) ++ ['\n', '\n']

/-- The table of a matrix. -/
def table (m : Association) : Except Failure String := m.tableChars.map String.ofList

theorem length_cell (text : List Char) : (cell text).length = cellWidth := by
  simp only [cell, List.length_append, List.length_replicate, List.length_take]
  omega

end LeastSquares.Association
