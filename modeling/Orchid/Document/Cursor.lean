import Orchid.Document.Model
import Orchid.Lib.ByteText
import Mathlib.Data.List.Enum

/-!
# Cursors

Positions in a document, the paragraph a cursor addresses, and the two conversions between a cursor
and a byte offset of the flat text. A loop that returns early is a fold in `Except`: the error is
the early result.
-/

namespace Orchid.Document

open Lib
open String (utf8Len)

/-! ### Positions -/

/-- Path to a paragraph or cell image inside a table. -/
structure CellPath where
  row : ℕ
  col : ℕ
  paraIdx : ℕ
  imageIdx : Option ℕ := none
deriving DecidableEq

/-- Position inside the document body. -/
structure Cursor where
  blockIdx : ℕ := 0
  cell : Option CellPath := none
  runIdx : ℕ := 0
  byteOffset : ℕ := 0
deriving DecidableEq

/-- Whether both address the same paragraph or cell image. -/
def Cursor.sameParagraph (a b : Cursor) : Bool := a.blockIdx == b.blockIdx && a.cell == b.cell

/-- A half-open selection from `anchor` to `head`. -/
structure Selection where
  anchor : Cursor
  head : Cursor

/-- Compares two cell paths; a column to the left counts before a row below. -/
def cmpCellPath (a b : CellPath) : Ordering :=
  if a.row < b.row ∨ a.col < b.col then .lt
  else if a.row > b.row ∨ a.col > b.col then .gt
  else
    match a.imageIdx, b.imageIdx with
    | none, none => compare a.paraIdx b.paraIdx
    | some i, some j =>
      match compare a.paraIdx b.paraIdx with
      | .eq => compare i j
      | o => o
    | none, some _ => if a.paraIdx > b.paraIdx then .gt else .lt
    | some _, none => if a.paraIdx < b.paraIdx then .lt else .gt

/-- Compares two cursors; a smaller byte offset counts before a smaller run index. -/
def cmpCursor (a b : Cursor) : Ordering :=
  match compare a.blockIdx b.blockIdx with
  | .eq =>
    let inPara : Ordering :=
      if a.runIdx < b.runIdx ∨ a.byteOffset < b.byteOffset then .lt
      else if a.runIdx > b.runIdx ∨ a.byteOffset > b.byteOffset then .gt
      else .eq
    match a.cell, b.cell with
    | none, none => inPara
    | none, some _ => .lt
    | some _, none => .gt
    | some ca, some cb =>
      match cmpCellPath ca cb with
      | .eq => if ca.imageIdx.isSome || cb.imageIdx.isSome then .eq else inPara
      | o => o
  | o => o

/-- Start and end of a selection, in the order of `cmpCursor`. -/
def Selection.normalized (s : Selection) : Cursor × Cursor :=
  if cmpCursor s.anchor s.head = .gt then (s.head, s.anchor) else (s.anchor, s.head)

/-! ### The addressed paragraph -/

/-- The table in a block. -/
def tableAt (blocks : List Block) (idx : ℕ) : Option Table :=
  match blocks[idx]? with
  | some (.table t) => some t
  | _ => none

/-- The body paragraph in a block. -/
def paragraphAt (blocks : List Block) (idx : ℕ) : Option Paragraph :=
  match blocks[idx]? with
  | some (.paragraph p) => some p
  | _ => none

/-- The cell of a table. -/
def Table.cellAt (t : Table) (row col : ℕ) : Option TableCell := do
  let r ← t.rows[row]?
  r.cells[col]?

/-- The paragraph addressed by a cursor. -/
def paragraphRef (blocks : List Block) (c : Cursor) : Option Paragraph :=
  match c.cell with
  | none => paragraphAt blocks c.blockIdx
  | some path => do
    let t ← tableAt blocks c.blockIdx
    let cell ← t.cellAt path.row path.col
    cell.paragraphs[path.paraIdx]?

/-! ### Flat offsets -/

/-- Text length of a paragraph. -/
def paraLen (p : Paragraph) : ℕ := (p.runs.map fun r => utf8Len r.text).sum

/-- Run index and byte offset that lie `remaining` bytes into the runs, at their end if they are
shorter. -/
def cursorInRuns : List Run → ℕ → ℕ × ℕ
  | [], _ => (0, 0)
  | [run], remaining => (0, min remaining (utf8Len run.text))
  | run :: runs, remaining =>
    if remaining ≤ utf8Len run.text then (0, remaining)
    else
      let (runIdx, byteOffset) := cursorInRuns runs (remaining - utf8Len run.text)
      (runIdx + 1, byteOffset)

/-- The cursor `remaining` bytes into a paragraph, at its end if it is shorter. -/
def cursorInPara (blockIdx : ℕ) (cell : Option CellPath) (p : Paragraph) (remaining : ℕ) : Cursor :=
  let (runIdx, byteOffset) := cursorInRuns p.runs remaining
  { blockIdx, cell, runIdx, byteOffset }

/-- The cursor at the end of a paragraph. -/
def endOfPara (blockIdx : ℕ) (cell : Option CellPath) (p : Paragraph) : Cursor :=
  match p.runs.getLast? with
  | none => { blockIdx, cell }
  | some last =>
    { blockIdx, cell, runIdx := p.runs.length - 1, byteOffset := utf8Len last.text }

/-- What the walk of `cursorFromPlainOffset` carries from paragraph to paragraph. -/
structure OffsetWalk where
  offset : ℕ
  emitted : Bool := false
  lastEnd : Cursor := {}

/-- One paragraph of the walk: the separator in front of it, then its text. -/
def OffsetWalk.paragraph (blockIdx : ℕ) (cell : Option CellPath) (s : OffsetWalk) (p : Paragraph) :
    Except Cursor OffsetWalk :=
  if s.emitted ∧ s.offset = 0 then .error s.lastEnd
  else
    let offset := if s.emitted then s.offset - 1 else s.offset
    if offset ≤ paraLen p then .error (cursorInPara blockIdx cell p offset)
    else .ok ⟨offset - paraLen p, true, endOfPara blockIdx cell p⟩

/-- One block of the walk. -/
def OffsetWalk.block (s : OffsetWalk) (x : Block × ℕ) : Except Cursor OffsetWalk :=
  let (block, bi) := x
  match block with
  | .paragraph p => s.paragraph bi none p
  | .table t =>
    t.rows.zipIdx.foldlM (fun s (row, ri) =>
      row.cells.zipIdx.foldlM (fun s (cell, ci) =>
        cell.paragraphs.zipIdx.foldlM (fun s (p, pi) =>
          s.paragraph bi (some ⟨ri, ci, pi, none⟩) p) s) s) s
  | .image _ => .ok s

/-- The early result of the walk, or the end of the last paragraph. -/
def OffsetWalk.finish : Except Cursor OffsetWalk → Cursor
  | .error c => c
  | .ok s => if s.emitted then s.lastEnd else {}

/-- Map a byte offset of the flat text to a cursor. -/
def cursorFromPlainOffset (blocks : List Block) (offset : ℕ) : Cursor :=
  OffsetWalk.finish (blocks.zipIdx.foldlM OffsetWalk.block ⟨offset, false, {}⟩)

/-- Bytes in front of byte `byteOffset` of run `runIdx`. -/
def offsetInRuns : List Run → ℕ → ℕ → ℕ
  | [], _, _ => 0
  | run :: _, 0, byteOffset => min byteOffset (utf8Len run.text)
  | run :: runs, runIdx + 1, byteOffset => utf8Len run.text + offsetInRuns runs runIdx byteOffset

/-- Bytes in front of a cursor inside its paragraph. -/
def offsetInPara (p : Paragraph) (c : Cursor) : ℕ := offsetInRuns p.runs c.runIdx c.byteOffset

/-- What the walk of `plainOffsetFromCursor` carries from paragraph to paragraph. -/
structure CursorWalk where
  offset : ℕ := 0
  emitted : Bool := false

/-- One paragraph of the walk; `hit` says whether the cursor is in it. -/
def CursorWalk.paragraph (c : Cursor) (hit : Bool) (s : CursorWalk) (p : Paragraph) :
    Except ℕ CursorWalk :=
  let offset := if s.emitted then s.offset + 1 else s.offset
  if hit then
    if (c.cell.bind CellPath.imageIdx).isSome then .error (offset + paraLen p)
    else .error (offset + offsetInPara p c)
  else .ok ⟨offset + paraLen p, true⟩

/-- One block of the walk. -/
def CursorWalk.block (c : Cursor) (s : CursorWalk) (x : Block × ℕ) : Except ℕ CursorWalk :=
  let (block, bi) := x
  match block with
  | .paragraph p => s.paragraph c (bi = c.blockIdx ∧ c.cell.isNone) p
  | .table t =>
    t.rows.zipIdx.foldlM (fun s (row, ri) =>
      row.cells.zipIdx.foldlM (fun (s : CursorWalk) (cell, ci) => do
        let cellStart := s.offset
        let inCell (path : CellPath) : Bool := bi = c.blockIdx ∧ path.row = ri ∧ path.col = ci
        let s ← cell.paragraphs.zipIdx.foldlM (fun (s : CursorWalk) (p, pi) =>
          s.paragraph c (c.cell.any fun path => inCell path ∧ path.paraIdx = pi) p) s
        -- an image in a cell without paragraphs stands where the cell starts
        if (c.cell.any fun path => inCell path ∧ path.imageIdx.isSome) ∧
            cell.paragraphs.isEmpty then .error cellStart
        else .ok s) s) s
  | .image _ => .ok s

/-- The early result of the walk, or the length walked. -/
def CursorWalk.finish : Except ℕ CursorWalk → ℕ
  | .error offset => offset
  | .ok s => s.offset

/-- Map a cursor to a byte offset of the flat text. -/
def plainOffsetFromCursor (blocks : List Block) (c : Cursor) : ℕ :=
  CursorWalk.finish (blocks.zipIdx.foldlM (CursorWalk.block c) {})

end Orchid.Document
