import Mathlib.Data.List.Rotate
import Mathlib.Order.Fin.Basic
import Orchid.Terminal.Graphics

/-!
# The grid of the emulator

The state of the terminal emulator and the operations on its grid; `emulator/mod.rs`. Reading a row
that is not there is a panic of the program and has no result here.
-/

namespace Orchid.Terminal

/-! ### Cells -/

/-- `CellColor` -/
inductive CellColor
  | default
  | indexed (i : U8)
  | rgb (r g b : U8)

/-- `CellFlags`, by its bits. -/
abbrev CellFlags := BitVec 16

/-- A single grid cell. -/
structure Cell where
  ch : Char := ' '
  fg : CellColor := .default
  bg : CellColor := .default
  flags : CellFlags := 0

/-- A line of cells. -/
abbrev Line := List Cell

/-- `empty_row` -/
def emptyRow (cols : U16) : Line := List.replicate cols.val {}

/-- `CursorStyle` -/
inductive CursorStyle
  | block
  | underline
  | bar

/-- `CursorState` -/
structure CursorState where
  col : U16 := 0
  row : U16 := 0
  style : CursorStyle := .block
  visible : Bool := true
  blinking : Bool := true

/-- What a newly written cell looks like. -/
structure Rendition where
  currentFg : CellColor := .default
  currentBg : CellColor := .default
  currentFlags : CellFlags := 0

/-- An image at an absolute line. -/
structure StoredImage where
  id : U32
  absLine : ℕ
  col : U16
  width : U32
  height : U32
  rgba : Bytes

/-! ### The state -/

/-- `EmulatorState`, without the selection; its parsers stand beside it in `TerminalEmulator`. -/
structure EmulatorState where
  cols : U16
  rows : U16
  scrollbackCap : ℕ
  grid : List Line
  scrollback : List Line := []
  viewportOffset : ℕ := 0
  cursor : CursorState := {}
  current : Rendition := {}
  title : Text := []
  cwd : Option Text := none
  scrollTop : U16 := 0
  scrollBottom : U16
  contentGeneration : U64 := 1
  /-- how many generations were drawn, which the program does not count -/
  drawn : ℕ := 0
  dirtyLines : List Bool
  fullRedraw : Bool := true
  dcsSixel : Bool := false
  dcsOverflow : Bool := false
  dcsBuf : Bytes := []
  cellW : U16 := 8
  cellH : U16 := 16
  images : List StoredImage := []
  kittyAcc : U32 → Option Bytes := fun _ => none
  kittyLib : List (U32 × StoredBlob) := []
  /-- how many images came into the library, which the program does not count -/
  stored : ℕ := 0

namespace EmulatorState

/-- A blank grid. -/
def new (cols rows : U16) (scrollbackCap : ℕ) : EmulatorState where
  cols
  rows
  scrollbackCap
  grid := List.replicate rows.val (emptyRow cols)
  scrollBottom := U16.saturatingSub rows 1
  dirtyLines := List.replicate rows.val true

/-! ### What has to be drawn -/

/-- The next generation, never zero. -/
def bumpGeneration (s : EmulatorState) : EmulatorState :=
  { s with contentGeneration := max (s.contentGeneration + 1) 1, drawn := s.drawn + 1 }

def markDirtyRow (s : EmulatorState) (row : U16) : EmulatorState :=
  { s with dirtyLines := s.dirtyLines.set row.val true }

def markDirtyRange (s : EmulatorState) (src toInclusive : U16) : EmulatorState :=
  { s with
    dirtyLines := s.dirtyLines.mapIdx fun i dirty =>
      dirty || (src.val ≤ i && i ≤ toInclusive.val) }

def markFullRedraw (s : EmulatorState) : EmulatorState :=
  { s with fullRedraw := true, dirtyLines := s.dirtyLines.map fun _ => true }

/-! ### Rows -/

/-- Change one row, if it is there. -/
def withRowMut (s : EmulatorState) (row : ℕ) (f : Line → Line) : EmulatorState :=
  if row < s.grid.length then
    { s with grid := s.grid.modify row f, dirtyLines := s.dirtyLines.set row true }
  else s

/-- One line fewer above every image; those on the first line are gone. -/
def shiftImageAnchors (s : EmulatorState) : EmulatorState :=
  { s with
    images := (s.images.filter fun img => img.absLine ≠ 0).map fun img =>
      { img with absLine := img.absLine - 1 } }

def pushScrollback (s : EmulatorState) (line : Line) : EmulatorState :=
  if s.scrollbackCap = 0 then s.shiftImageAnchors
  else if s.scrollbackCap ≤ s.scrollback.length then
    { s with scrollback := s.scrollback.drop 1 ++ [line] }.shiftImageAnchors
  else { s with scrollback := s.scrollback ++ [line] }

/-- A row of another width. -/
def resizeLine (cols : U16) (line : Line) : Line :=
  line.take cols.val ++ List.replicate (cols.val - line.length) ({} : Cell)

/-- `resize`; the rows at the top go to the scrollback, one after the other. -/
def resize (s : EmulatorState) (cols rows : U16) : EmulatorState :=
  if cols = s.cols ∧ rows = s.rows then s
  else
    let s := s.bumpGeneration
    let s := { s with grid := s.grid.map (resizeLine cols) }
    let s :=
      if s.grid.length < rows.val then
        { s with grid := s.grid ++ List.replicate (rows.val - s.grid.length) (emptyRow cols) }
      else
        let dropped := s.grid.length - rows.val
        { (s.grid.take dropped).foldl pushScrollback s with grid := s.grid.drop dropped }
    { s with
      cols, rows, scrollTop := 0, scrollBottom := U16.saturatingSub rows 1
      cursor :=
        { s.cursor with
          col := min s.cursor.col (U16.saturatingSub cols 1)
          row := min s.cursor.row (U16.saturatingSub rows 1) }
      dirtyLines := List.replicate rows.val true }.markFullRedraw

/-! ### Line feeds -/

/-- The rows from `top` to `bot` moved round by `n`. -/
def rotateRegion (grid : List Line) (top bot n : ℕ) : List Line :=
  grid.take top ++ (((grid.drop top).take (bot + 1 - top)).rotate n ++ grid.drop (bot + 1))

/-- The first row goes to the scrollback if the scroll region begins with it. -/
def saveTopRow (s : EmulatorState) : Option EmulatorState :=
  if s.scrollTop = 0 then (s.grid[0]?).map s.pushScrollback else some s

/-- The rows of the scroll region move up by one, with a blank one at the end. -/
def scrollUp (s : EmulatorState) : EmulatorState :=
  let top := s.scrollTop.val
  let bot := s.scrollBottom.val
  if top ≤ bot ∧ bot < s.grid.length then
    { s with grid := (rotateRegion s.grid top bot 1).set bot (emptyRow s.cols) }.markDirtyRange
      s.scrollTop s.scrollBottom
  else s

/-- The rows of the scroll region move down by one, with a blank one at the beginning. -/
def scrollDown (s : EmulatorState) : EmulatorState :=
  let top := s.scrollTop.val
  let bot := s.scrollBottom.val
  if top ≤ bot ∧ bot < s.grid.length then
    { s with grid := (rotateRegion s.grid top bot (bot - top)).set top (emptyRow s.cols)
      }.markDirtyRange s.scrollTop s.scrollBottom
  else s

def lineFeed (s : EmulatorState) : Option EmulatorState :=
  if s.cursor.row = s.scrollBottom then s.saveTopRow.map fun s => s.scrollUp.bumpGeneration
  else
    let prev := s.cursor.row
    let s := { s with
      cursor := { s.cursor with row := min (U16.saturatingAdd s.cursor.row 1) (s.rows - 1) } }
    some ((s.markDirtyRow prev).markDirtyRow s.cursor.row).bumpGeneration

def reverseLineFeed (s : EmulatorState) : EmulatorState :=
  if s.cursor.row = s.scrollTop then s.scrollDown.bumpGeneration
  else
    let prev := s.cursor.row
    let s := { s with cursor := { s.cursor with row := U16.saturatingSub s.cursor.row 1 } }
    ((s.markDirtyRow prev).markDirtyRow s.cursor.row).bumpGeneration

/-! ### The cursor -/

/-- The cursor comes to a place, which is drawn if it is another one. -/
def moveCursor (s : EmulatorState) (row col : U16) : EmulatorState :=
  if row = s.cursor.row ∧ col = s.cursor.col then s
  else
    ({ s.markDirtyRow s.cursor.row with cursor := { s.cursor with row, col } }.markDirtyRow
      row).bumpGeneration

def carriageReturn (s : EmulatorState) : EmulatorState := s.moveCursor s.cursor.row 0

def backspace (s : EmulatorState) : EmulatorState :=
  s.moveCursor s.cursor.row (U16.saturatingSub s.cursor.col 1)

/-- The next of the tab stops, every eight columns; the multiplication wraps. -/
def tab (s : EmulatorState) : EmulatorState :=
  let next : U16 := ⟨(s.cursor.col.val / 8 + 1) * 8 % 2 ^ 16, Nat.mod_lt _ (by decide)⟩
  s.moveCursor s.cursor.row (min next (U16.saturatingSub s.cols 1))

def cursorUp (s : EmulatorState) (n : U16) : EmulatorState :=
  s.moveCursor (max (U16.saturatingSub s.cursor.row n) s.scrollTop) s.cursor.col

def cursorDown (s : EmulatorState) (n : U16) : EmulatorState :=
  s.moveCursor (min (min (U16.saturatingAdd s.cursor.row n) s.scrollBottom)
    (U16.saturatingSub s.rows 1)) s.cursor.col

def cursorRight (s : EmulatorState) (n : U16) : EmulatorState :=
  s.moveCursor s.cursor.row (min (U16.saturatingAdd s.cursor.col n) (U16.saturatingSub s.cols 1))

def cursorLeft (s : EmulatorState) (n : U16) : EmulatorState :=
  s.moveCursor s.cursor.row (U16.saturatingSub s.cursor.col n)

def cursorPosition (s : EmulatorState) (row col : U16) : EmulatorState :=
  s.moveCursor (min (U16.saturatingSub row 1) (U16.saturatingSub s.rows 1))
    (min (U16.saturatingSub col 1) (U16.saturatingSub s.cols 1))

def setScrollRegion (s : EmulatorState) (top bottom : U16) : EmulatorState :=
  let top := min (U16.saturatingSub top 1) (U16.saturatingSub s.rows 1)
  let bottom := min (U16.saturatingSub bottom 1) (U16.saturatingSub s.rows 1)
  if top < bottom then { s with scrollTop := top, scrollBottom := bottom }.cursorPosition 1 1
  else s

/-! ### Writing and erasing -/

/-- A cursor behind the last column goes to the next line. -/
def wrapLine (s : EmulatorState) : Option EmulatorState :=
  if s.cols ≤ s.cursor.col then s.carriageReturn.lineFeed else some s

/-- The cell under the cursor is written. -/
def putChar (s : EmulatorState) (ch : Char) : EmulatorState :=
  let cell : Cell := ⟨ch, s.current.currentFg, s.current.currentBg, s.current.currentFlags⟩
  let s := s.withRowMut s.cursor.row.val fun line => line.set s.cursor.col.val cell
  { s with cursor := { s.cursor with col := U16.saturatingAdd s.cursor.col 1 } }.bumpGeneration

def writeChar (s : EmulatorState) (ch : Char) : Option EmulatorState :=
  s.wrapLine.map fun s => s.putChar ch

def clearRowRange (s : EmulatorState) (row src dst : ℕ) : EmulatorState :=
  let stop := min dst s.cols.val
  if stop ≤ src then s
  else
    (s.withRowMut row fun line =>
      line.mapIdx fun i cell => if src ≤ i ∧ i < stop then {} else cell).bumpGeneration

/-- Some rows from `row` on, one after the other. -/
def clearRows (s : EmulatorState) (row n : ℕ) : EmulatorState :=
  (List.range' row n).foldl (fun s r => s.clearRowRange r 0 s.cols.val) s

def eraseInLine (s : EmulatorState) (mode : U16) : EmulatorState :=
  let row := s.cursor.row.val
  let col := s.cursor.col.val
  if mode = 0 then s.clearRowRange row col s.cols.val
  else if mode = 1 then s.clearRowRange row 0 (col + 1)
  else if mode = 2 then s.clearRowRange row 0 s.cols.val
  else s

def eraseInDisplay (s : EmulatorState) (mode : U16) : EmulatorState :=
  let row := s.cursor.row.val
  let col := s.cursor.col.val
  if mode = 0 then
    (s.clearRowRange row col s.cols.val).clearRows (row + 1) (s.grid.length - (row + 1))
  else if mode = 1 then (s.clearRows 0 row).clearRowRange row 0 (col + 1)
  else if mode = 2 ∨ mode = 3 then s.clearRows 0 s.grid.length
  else s

/-! ### The viewport -/

/-- `scroll_to` the top of the scrollback, the live tail or a line, which does nothing yet. -/
inductive ScrollPosition
  | top
  | bottom
  | line (n : ℤ)

def scrollTo (s : EmulatorState) (pos : ScrollPosition) : EmulatorState :=
  let s := s.bumpGeneration.markFullRedraw
  match pos with
  | .top => { s with viewportOffset := s.scrollback.length }
  | .bottom => { s with viewportOffset := 0 }
  | .line _ => s

/-- `scroll_by`, with the negation and the sum wrapping. -/
def scrollBy (s : EmulatorState) (lines : BitVec 32) : EmulatorState :=
  let s := if lines ≠ 0 then s.bumpGeneration.markFullRedraw else s
  if 0 < lines.toInt then { s with viewportOffset := s.viewportOffset - lines.toNat }
  else
    let add := ((-lines).signExtend 64).toNat
    { s with viewportOffset := min ((s.viewportOffset + add) % 2 ^ 64) s.scrollback.length }

/-! ### Snapshots -/

/-- `GridLine` -/
structure GridLine where
  lineNumber : ℤ
  cells : Line

/-- An image in the viewport. -/
structure InlineImage where
  col : U16
  row : ℤ
  width : U32
  height : U32
  rgba : Bytes

/-- `GridSnapshot` -/
structure GridSnapshot where
  cols : U16
  rows : U16
  scrollbackOffset : ℕ
  scrollbackTotal : ℕ
  lines : List GridLine
  cursor : CursorState
  contentGeneration : U64
  dirtyLines : List ℕ
  fullRedraw : Bool
  images : List InlineImage

def visibleImages (s : EmulatorState) : List InlineImage :=
  let total := s.scrollback.length + s.grid.length
  let top :=
    if s.viewportOffset = 0 then s.scrollback.length
    else total - s.viewportOffset - s.rows.val
  s.images.filterMap fun img =>
    let row : ℤ := img.absLine - top
    let ch : ℤ := (max s.cellH 1).val
    let span := (img.height.val + ch - 1) / ch
    if row + span ≤ 0 ∨ s.rows.val ≤ row then none
    else some ⟨img.col, row, img.width, img.height, img.rgba⟩

/-- The line at an absolute index of the scrollback with the grid behind it. -/
def lineAt (s : EmulatorState) (abs : ℕ) : Option GridLine :=
  (if abs < s.scrollback.length then s.scrollback[abs]?
    else s.grid[abs - s.scrollback.length]?).map fun cells =>
      ⟨abs - s.scrollback.length, cells⟩

/-- The lines in the viewport. -/
def visibleLines (s : EmulatorState) : Option (List GridLine) :=
  if s.viewportOffset = 0 then some (s.grid.mapIdx fun i row => ⟨i, row⟩)
  else
    let bottom := s.scrollback.length + s.grid.length - s.viewportOffset
    let top := bottom - s.rows.val
    (List.range' top (bottom - top)).mapM s.lineAt

def snapshot (s : EmulatorState) : Option (GridSnapshot × EmulatorState) := do
  let lines ← s.visibleLines
  let fullRedraw := s.fullRedraw || s.viewportOffset ≠ 0
  let dirtyLines :=
    if fullRedraw then List.range s.rows.val
    else (List.range s.dirtyLines.length).filter fun i => s.dirtyLines.getD i false
  let s := { s with dirtyLines := s.dirtyLines.map fun _ => false, fullRedraw := false }
  return (⟨s.cols, s.rows, s.viewportOffset, s.scrollback.length, lines, s.cursor,
    s.contentGeneration, dirtyLines, fullRedraw, s.visibleImages⟩, s)

end EmulatorState

end Orchid.Terminal
