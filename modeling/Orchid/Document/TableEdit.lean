import Mathlib.Order.Fin.Basic
import Orchid.Document.Undo
import Orchid.Lib.Strip

/-!
# Merging and unmerging table cells

The table operations take the indices of a row and of a cell in it; a cell lies over as many columns
of the grid as it spans, so its index and its grid column differ. An addition of spans that leaves
the range of `u32` wraps, as it does in a release build.
-/

namespace Orchid.Document

open Lib

/-! ### Grid columns -/

/-- The columns of the grid that a cell spans. -/
def TableCell.colspan (cell : TableCell) : U32 := max (cell.gridSpan.getD 1) 1

/-- The width of a cell in the grid. -/
def TableCell.span (cell : TableCell) : ℕ := cell.colspan.val

namespace Table

/-- The grid column where a cell begins. -/
def cellGridCol (t : Table) (row col : ℕ) : Except Fault ℕ :=
  match t.rows[row]? with
  | none => .error .editOutOfBounds
  | some r =>
    if col < r.cells.length then .ok (Strip.width TableCell.span (r.cells.take col))
    else .error .editOutOfBounds

end Table

/-- The index of the cell over a grid column. -/
def TableRow.cellIndexAtGridCol (row : TableRow) (col0 : ℕ) : Option ℕ :=
  Strip.indexAt TableCell.span col0 0 row.cells

/-- The cell over a grid column is a continuation. -/
def TableRow.continuesAt (row : TableRow) (col0 : ℕ) : Bool :=
  ((row.cellIndexAtGridCol col0).bind fun i => row.cells[i]?).any fun c =>
    c.vMerge = some .continue

namespace Table

/-- The rows that the cell over a grid column reaches down to. -/
def vmergeRowspan (t : Table) (row col0 : ℕ) : ℕ :=
  match (t.rows[row]?).bind fun r => r.cellIndexAtGridCol col0 with
  | none => 1
  | some ci =>
    match (t.cellAt row ci).bind TableCell.vMerge with
    | some .continue => 0
    | none => 1
    | some .restart =>
      1 + ((t.rows.drop (row + 1)).takeWhile fun r => r.continuesAt col0).length

/-- The nearest cell above row `r` over a grid column that is not a continuation. -/
def originAbove (t : Table) (col0 : ℕ) : ℕ → Except Fault (ℕ × ℕ)
  | 0 => .error .editOutOfBounds
  | r + 1 =>
    match (t.rows[r]?).bind fun row => row.cellIndexAtGridCol col0 with
    | none => originAbove t col0 r
    | some ci =>
      if (t.cellAt r ci).bind TableCell.vMerge = some .continue then originAbove t col0 r
      else .ok (r, ci)

/-- The cell that a continuation belongs to. -/
def resolveMergeOrigin (t : Table) (row col : ℕ) : Except Fault (ℕ × ℕ) :=
  match t.cellAt row col with
  | none => .error .editOutOfBounds
  | some cell =>
    if cell.vMerge = some .continue then do
      let col0 ← t.cellGridCol row col
      t.originAbove col0 row
    else .ok (row, col)

end Table

/-! ### Merging -/

/-- The content of `src` put behind that of `dst`; a single empty paragraph is dropped. -/
def TableCell.appendCellContent (dst src : TableCell) (paraOffset : ℕ) : TableCell :=
  { dst with
    paragraphs :=
      if dst.paragraphs = [] then src.paragraphs
      else if src.paragraphs.length = 1 ∧ src.paragraphs.all (fun p => p.plainText = []) then
        dst.paragraphs
      else dst.paragraphs ++ src.paragraphs
    images := dst.images ++ src.images.map fun img =>
      { img with afterParagraph := img.afterParagraph + paraOffset } }

/-- The cell that two neighbours merge into. -/
def TableCell.joinRight (left right : TableCell) : TableCell :=
  { left.appendCellContent right left.paragraphs.length with
    gridSpan := some (left.colspan + right.colspan) }

/-- The upper cell of a vertical merge. -/
def TableCell.joinBelow (above below : TableCell) : TableCell :=
  { above.appendCellContent below above.paragraphs.length with vMerge := some .restart }

/-- The cell that a vertical merge leaves behind. -/
def TableCell.continuation (span : Option U32) : TableCell :=
  { paragraphs := [{}], gridSpan := span, vMerge := some .continue }

namespace Table

/-- Change the cells of one row. -/
def modifyCells (t : Table) (row : ℕ) (f : List TableCell → List TableCell) : Table :=
  { t with rows := t.rows.modify row fun r => { r with cells := f r.cells } }

def canMergeHorizontal (t : Table) (row col : ℕ) : Bool :=
  match t.cellAt row col, t.cellAt row (col + 1) with
  | some left, some right =>
    !(left.vMerge = some .continue || right.vMerge = some .continue)
  | _, _ => false

/-- The grid column of a cell, with the index of the cell below it. -/
def cellBelow (t : Table) (row col : ℕ) : Option (ℕ × ℕ) := do
  let col0 ← (t.cellGridCol row col).toOption
  let below ← t.rows[row + 1]?
  let belowCi ← below.cellIndexAtGridCol col0
  return (col0, belowCi)

def canMergeVertical (t : Table) (row col : ℕ) : Bool :=
  match t.cellBelow row col with
  | none => false
  | some (_, belowCi) =>
    match t.cellAt row col, t.cellAt (row + 1) belowCi with
    | some above, some below =>
      !(above.vMerge = some .continue) && above.colspan = below.colspan
    | _, _ => false

def mergeHorizontal (t : Table) (row col : ℕ) : Except Fault Table :=
  if t.canMergeHorizontal row col then
    match t.cellAt row col, t.cellAt row (col + 1) with
    | some left, some right =>
      .ok (t.modifyCells row fun cells =>
        (cells.eraseIdx (col + 1)).set col (left.joinRight right))
    | _, _ => .error .editOutOfBounds
  else .error .editOutOfBounds

def mergeVertical (t : Table) (row col : ℕ) : Except Fault Table :=
  if t.canMergeVertical row col then
    match t.cellBelow row col with
    | none => .error .editOutOfBounds
    | some (_, belowCi) =>
      match t.cellAt row col, t.cellAt (row + 1) belowCi with
      | some above, some below =>
        .ok ((t.modifyCells (row + 1) fun cells =>
            cells.set belowCi (.continuation above.gridSpan)).modifyCells row fun cells =>
              cells.set col (above.joinBelow below))
      | _, _ => .error .editOutOfBounds
  else .error .editOutOfBounds

/-- Merge with the next cell if possible, otherwise downwards. -/
def mergeAt (t : Table) (row col : ℕ) : Except Fault Table :=
  if t.canMergeHorizontal row col then t.mergeHorizontal row col
  else if t.canMergeVertical row col then t.mergeVertical row col
  else .error .editOutOfBounds

end Table

/-! ### Unmerging -/

/-- The cell over a grid column is no longer part of a vertical merge. -/
def TableRow.clearMerge (row : TableRow) (col0 : ℕ) : TableRow :=
  match row.cellIndexAtGridCol col0 with
  | none => row
  | some ci => { row with cells := row.cells.modify ci fun c => { c with vMerge := none } }

/-- A blank cell put behind the one at an index. -/
def insertBlank (originCi : ℕ) (cells : List TableCell) : List TableCell :=
  cells.insertIdx (min (originCi + 1) cells.length) (.fromParagraphs [{}])

/-- The cell over a grid column becomes one column wide, with blank cells for the other ones. -/
def TableRow.splitCell (row : TableRow) (col0 colspan : ℕ) : TableRow :=
  match row.cellIndexAtGridCol col0 with
  | none => row
  | some originCi =>
    { row with
      cells := (insertBlank originCi)^[colspan - 1]
        (row.cells.modify originCi fun c => { c with gridSpan := none }) }

namespace Table

/-- Change `n` rows from `row` on, one after the other. -/
def modifyRows (t : Table) (row n : ℕ) (f : TableRow → TableRow) : Table :=
  { t with rows := (List.range' row n).foldl (fun rows r => rows.modify r f) t.rows }

/-- Split the merged cell that the one at an index belongs to. -/
def unmergeAt (t : Table) (row col : ℕ) : Except Fault Table := do
  let (row, col) ← t.resolveMergeOrigin row col
  let col0 ← t.cellGridCol row col
  let colspan := ((t.cellAt row col).map TableCell.span).getD 1
  let rowspan := t.vmergeRowspan row col0
  if ¬ 1 < colspan ∧ ¬ 1 < rowspan then
    .error .editOutOfBounds
  else
    let t := if 1 < rowspan then t.modifyRows row rowspan fun r => r.clearMerge col0 else t
    return if 1 < colspan then
      t.modifyRows row (max rowspan 1) fun r => r.splitCell col0 colspan else t

end Table

end Orchid.Document
