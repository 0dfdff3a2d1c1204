import Orchid.Document.Cursor
import Orchid.Lib.Focus
import Orchid.Lib.ListEdit

/-!
# Edit commands and the undo stack

Every command is applied to a document and gives back the command that is meant to undo it. A
command that fails leaves the document as it stands at the failure. A slice that is out of range or
off a character boundary is a panic.
-/

namespace Orchid.Document

open Lib
open String (utf8Len)

/-- How an edit fails. -/
inductive Fault where
  | editOutOfBounds
  | panic
deriving DecidableEq

/-- A program on a state that stays as left when it fails. -/
abbrev Edit := EStateM Fault

/-! ### The mutable parts of a document -/

section Parts

/-- The body. -/
def blocksOf : Focus Document (List Block) :=
  .field Document.blocks (fun b d => { d with blocks := b }) (fun _ _ => rfl) (fun _ => rfl)
    fun _ _ _ => rfl

/-- Trailing page size and margins. -/
def pageSetupOf : Focus Document PageSetup :=
  .field Document.pageSetup (fun b d => { d with pageSetup := b }) (fun _ _ => rfl) (fun _ => rfl)
    fun _ _ _ => rfl

/-- Default header story. -/
def headerOf : Focus Document (List Paragraph) :=
  .field Document.header (fun b d => { d with header := b }) (fun _ _ => rfl) (fun _ => rfl)
    fun _ _ _ => rfl

/-- Default footer story. -/
def footerOf : Focus Document (List Paragraph) :=
  .field Document.footer (fun b d => { d with footer := b }) (fun _ _ => rfl) (fun _ => rfl)
    fun _ _ _ => rfl

/-- First-page header story. -/
def headerFirstOf : Focus Document (List Paragraph) :=
  .field Document.headerFirst (fun b d => { d with headerFirst := b }) (fun _ _ => rfl)
    (fun _ => rfl) fun _ _ _ => rfl

/-- First-page footer story. -/
def footerFirstOf : Focus Document (List Paragraph) :=
  .field Document.footerFirst (fun b d => { d with footerFirst := b }) (fun _ _ => rfl)
    (fun _ => rfl) fun _ _ _ => rfl

/-- Even-page header story. -/
def headerEvenOf : Focus Document (List Paragraph) :=
  .field Document.headerEven (fun b d => { d with headerEven := b }) (fun _ _ => rfl)
    (fun _ => rfl) fun _ _ _ => rfl

/-- Even-page footer story. -/
def footerEvenOf : Focus Document (List Paragraph) :=
  .field Document.footerEven (fun b d => { d with footerEven := b }) (fun _ _ => rfl)
    (fun _ => rfl) fun _ _ _ => rfl

/-- Bookmarks. -/
def bookmarksOf : Focus Document (List Bookmark) :=
  .field Document.bookmarks (fun b d => { d with bookmarks := b }) (fun _ _ => rfl) (fun _ => rfl)
    fun _ _ _ => rfl

/-- Comment payloads. -/
def commentsOf : Focus Document (List DocComment) :=
  .field Document.comments (fun b d => { d with comments := b }) (fun _ _ => rfl) (fun _ => rfl)
    fun _ _ _ => rfl

/-- Comment anchors. -/
def commentRangesOf : Focus Document (List CommentRange) :=
  .field Document.commentRanges (fun b d => { d with commentRanges := b }) (fun _ _ => rfl)
    (fun _ => rfl) fun _ _ _ => rfl

/-- A block that is a paragraph. -/
def asParagraph : Focus Block Paragraph :=
  .case (fun | .paragraph p => some p | _ => none) .paragraph (fun _ => rfl) fun s a h => by
    cases s <;> simp_all

/-- A block that is a table. -/
def asTable : Focus Block Table :=
  .case (fun | .table t => some t | _ => none) .table (fun _ => rfl) fun s a h => by
    cases s <;> simp_all

/-- Rows of a table. -/
def rowsOf : Focus Table (List TableRow) :=
  .field Table.rows (fun b t => { t with rows := b }) (fun _ _ => rfl) (fun _ => rfl)
    fun _ _ _ => rfl

/-- Cells of a row. -/
def cellsOf : Focus TableRow (List TableCell) :=
  .field TableRow.cells (fun b r => { r with cells := b }) (fun _ _ => rfl) (fun _ => rfl)
    fun _ _ _ => rfl

/-- Paragraphs of a cell. -/
def paragraphsOf : Focus TableCell (List Paragraph) :=
  .field TableCell.paragraphs (fun b c => { c with paragraphs := b }) (fun _ _ => rfl)
    (fun _ => rfl) fun _ _ _ => rfl

/-- The block at an index. -/
def blockAt (i : ℕ) : Focus Document Block := blocksOf.comp (.index Block i)

/-- The body paragraph at a block index. -/
def bodyParagraph (i : ℕ) : Focus Document Paragraph := (blockAt i).comp asParagraph

/-- The table at a block index. -/
def bodyTable (i : ℕ) : Focus Document Table := (blockAt i).comp asTable

/-- A cell of the table at a block index. -/
def bodyCell (i row col : ℕ) : Focus Document TableCell :=
  ((((bodyTable i).comp rowsOf).comp (.index TableRow row)).comp cellsOf).comp (.index TableCell col)

/-- The paragraph addressed by a cursor. -/
def paragraphMut (c : Cursor) : Focus Document Paragraph :=
  match c.cell with
  | none => bodyParagraph c.blockIdx
  | some path =>
    ((bodyCell c.blockIdx path.row path.col).comp paragraphsOf).comp (.index Paragraph path.paraIdx)

end Parts

/-! ### Commands -/

/-- Partial style update: only set fields are applied. -/
structure RunStylePatch where
  bold : Option Bool := none
  italic : Option Bool := none
  underline : Option Bool := none
  strikethrough : Option Bool := none
  doubleStrikethrough : Option Bool := none
  highlight : Option Bool := none
  superscript : Option Bool := none
  subscript : Option Bool := none
  allCaps : Option Bool := none
  smallCaps : Option Bool := none
  vanish : Option Bool := none
  shadow : Option Bool := none
  emboss : Option Bool := none
  imprint : Option Bool := none
  color : Option (Option Rgb) := none
  fontFamily : Option (Option Text) := none
  fontSizePt : Option (Option F32) := none
  hyperlink : Option (Option Hyperlink) := none
  styleId : Option (Option Text) := none

/-- One reversible edit. -/
inductive EditCommand where
  | insertText (pos : Cursor) (text : Text)
  | deleteRange (range : Selection)
  | setRunStyle (range : Selection) (style : RunStylePatch)
  | setAlignment (paragraphIdx : ℕ) (alignment : Alignment)
  | toggleList (paragraphIdx : ℕ) (kind : ListKind)
  | insertTable (atBlock : ℕ) (table : Table)
  | insertTableRow (tableIdx atRow : ℕ)
  | deleteTableRow (tableIdx rowIdx : ℕ)
  | insertTableColumn (tableIdx atCol : ℕ)
  | deleteTableColumn (tableIdx colIdx : ℕ)
  | insertImage (pos : Cursor) (image : InlineImage)
  | insertCellImage (tableIdx row col imageIdx : ℕ) (image : CellImage)
  | removeCellImage (tableIdx row col imageIdx : ℕ)
  | replaceParagraph (paragraphIdx : ℕ) (previous : Paragraph)
  | replaceBlock (blockIdx : ℕ) (previous : Block)
  | replaceBlocks (blocks : List Block)
  | setPageSetup (setup : PageSetup)
  | setSectionPageSetup (endBlockIdx : ℕ) (setup : PageSetup)
  | setHeader (paragraphs : List Paragraph)
  | setFooter (paragraphs : List Paragraph)
  | setHeaderFirst (paragraphs : List Paragraph)
  | setFooterFirst (paragraphs : List Paragraph)
  | setHeaderEven (paragraphs : List Paragraph)
  | setFooterEven (paragraphs : List Paragraph)
  | addBookmark (bookmark : Bookmark)
  | removeBookmark (name : Text)
  | addComment (comment : DocComment) (range : CommentRange)
  | removeComment (id : U32)
  | updateCommentText (id : U32) (text : Text)
  | removeBlock (blockIdx : ℕ)
  | restoreTableRow (tableIdx atRow : ℕ) (row : TableRow)
  | restoreTableColumn (tableIdx atCol : ℕ) (cells : List (Option TableCell))
      (widthTwips : Option U32)

/-! ### Text -/

/-- Change the runs of a paragraph. -/
def Paragraph.withRuns (p : Paragraph) (runs : List Run) : Paragraph := { p with runs }

/-- Change the text of a run. -/
def Run.withText (run : Run) (text : Text) : Run := { run with text }

section WithRuns

variable (p : Paragraph) (runs runs' : List Run) (run : Run) (text text' : Text)

@[simp] lemma Paragraph.runs_withRuns : (p.withRuns runs).runs = runs := rfl

@[simp] lemma Paragraph.withRuns_withRuns : (p.withRuns runs).withRuns runs' = p.withRuns runs' :=
  rfl

@[simp] lemma Paragraph.withRuns_runs : p.withRuns p.runs = p := rfl

@[simp] lemma Run.text_withText : (run.withText text).text = text := rfl

@[simp] lemma Run.withText_withText : (run.withText text).withText text' = run.withText text' := rfl

@[simp] lemma Run.withText_text : run.withText run.text = run := rfl

end WithRuns

/-- Insert text; a paragraph without runs gets one, wherever the cursor points. -/
def insertTextInParagraph (pos : Cursor) (text : Text) : Edit Paragraph Unit := do
  let p ← get
  if p.runs.isEmpty then set (p.withRuns [{ text }])
  else
    match p.runs[pos.runIdx]? with
    | none => throw .editOutOfBounds
    | some run =>
      if pos.byteOffset > utf8Len run.text then throw .editOutOfBounds
      else
        match insertAtByte run.text pos.byteOffset text with
        | none => throw .panic
        | some t => set (p.withRuns (p.runs.set pos.runIdx (run.withText t)))

def applyInsertText (pos : Cursor) (text : Text) : Edit Document Unit :=
  (paragraphMut pos).borrow .editOutOfBounds (insertTextInParagraph pos text)

/-- Delete between two cursors of one paragraph: inside one run, or from one run to a later one,
whose rest is appended to the first. -/
def deleteInParagraph (start stop : Cursor) : Edit Paragraph Unit := do
  let p ← get
  match p.runs[start.runIdx]? with
  | none => throw .editOutOfBounds
  | some first =>
    if start.runIdx = stop.runIdx then
      if start.byteOffset > stop.byteOffset ∨ stop.byteOffset > utf8Len first.text then
        throw .editOutOfBounds
      else
        match drainBytes first.text start.byteOffset stop.byteOffset with
        | none => throw .panic
        | some t => set (p.withRuns (p.runs.set start.runIdx (first.withText t)))
    else if start.byteOffset > utf8Len first.text then throw .editOutOfBounds
    else
      match splitAtByte first.text start.byteOffset with
      | none => throw .panic
      | some (kept, _) =>
        let runs := p.runs.set start.runIdx (first.withText kept)
        set (p.withRuns runs)
        match runs[stop.runIdx]? with
        | none => throw .editOutOfBounds
        | some last =>
          if stop.byteOffset > utf8Len last.text then throw .editOutOfBounds
          else
            match splitAtByte last.text stop.byteOffset with
            | none => throw .panic
            | some (_, rest) =>
              -- the drained range would end before it starts
              if stop.runIdx < start.runIdx then throw .panic
              else
                set <| p.withRuns <|
                  (runs.take (start.runIdx + 1) ++ runs.drop (stop.runIdx + 1)).modify
                    start.runIdx fun run => run.withText (run.text ++ rest)

def applyDeleteRange (start stop : Cursor) : Edit Document Unit :=
  if ¬ start.sameParagraph stop then throw .editOutOfBounds
  else (paragraphMut start).borrow .editOutOfBounds (deleteInParagraph start stop)

/-- The part of one run that lies between two cursors. -/
def extractFromRun (start stop : Cursor) (idx : ℕ) (run : Run) : Except Fault Text :=
  let slice :=
    if idx = start.runIdx then (splitAtByte run.text start.byteOffset).map Prod.snd
    else if idx = stop.runIdx then (splitAtByte run.text stop.byteOffset).map Prod.fst
    else some run.text
  match slice with
  | none => .error .panic
  | some t => .ok t

/-- The text of a paragraph between two cursors in it. -/
def extractFromParagraph (start stop : Cursor) (p : Paragraph) : Except Fault Text :=
  if start.runIdx = stop.runIdx then
    match p.runs[start.runIdx]? with
    | none => .error .editOutOfBounds
    | some run =>
      match sliceBytes run.text start.byteOffset stop.byteOffset with
      | none => .error .panic
      | some t => .ok t
  else
    (List.range' start.runIdx (stop.runIdx + 1 - start.runIdx)).foldlM (fun out idx =>
      match p.runs[idx]? with
      | none => .error .editOutOfBounds
      | some run => return out ++ (← extractFromRun start stop idx run)) []

/-- The text between two cursors of one paragraph. -/
def extractText (start stop : Cursor) : Edit Document Text := do
  let d ← get
  if ¬ start.sameParagraph stop then throw .editOutOfBounds
  else
    match paragraphRef d.blocks start with
    | none => throw .editOutOfBounds
    | some p =>
      match extractFromParagraph start stop p with
      | .error e => throw e
      | .ok t => return t

/-! ### Style -/

namespace RunStylePatch

/-- Apply the patch to a style; switching on superscript or subscript clears the other. -/
def applyTo (patch : RunStylePatch) (style : RunStyle) : RunStyle :=
  let style := { style with
    bold := patch.bold.getD style.bold
    italic := patch.italic.getD style.italic
    underline := patch.underline.getD style.underline
    strikethrough := patch.strikethrough.getD style.strikethrough
    doubleStrikethrough := patch.doubleStrikethrough.getD style.doubleStrikethrough
    highlight := patch.highlight.getD style.highlight }
  let style :=
    match patch.superscript with
    | none => style
    | some v => { style with superscript := v, subscript := if v then false else style.subscript }
  let style :=
    match patch.subscript with
    | none => style
    | some v => { style with subscript := v, superscript := if v then false else style.superscript }
  { style with
    allCaps := patch.allCaps.getD style.allCaps
    smallCaps := patch.smallCaps.getD style.smallCaps
    vanish := patch.vanish.getD style.vanish
    shadow := patch.shadow.getD style.shadow
    emboss := patch.emboss.getD style.emboss
    imprint := patch.imprint.getD style.imprint
    color := patch.color.getD style.color
    fontFamily := patch.fontFamily.getD style.fontFamily
    fontSizePt := patch.fontSizePt.getD style.fontSizePt }

/-- Apply character style and optional hyperlink to a run. -/
def applyToRun (patch : RunStylePatch) (run : Run) : Run :=
  { run with
    style := patch.applyTo run.style
    hyperlink := patch.hyperlink.getD run.hyperlink
    styleId := patch.styleId.getD run.styleId }

end RunStylePatch

/-- Split a run; gives the index of the right-hand run. The right half is no field any more. -/
def splitRunAt (runIdx byteOffset : ℕ) : Edit Paragraph ℕ := do
  let p ← get
  match p.runs[runIdx]? with
  | none => throw .editOutOfBounds
  | some run =>
    if byteOffset = 0 then return runIdx
    else if byteOffset ≥ utf8Len run.text then return runIdx + 1
    else
      match splitAtByte run.text byteOffset with
      | none => throw .editOutOfBounds
      | some (left, right) =>
        set <| p.withRuns <| (p.runs.set runIdx (run.withText left)).insertIdx (runIdx + 1)
          { run with text := right, field := none }
        return runIdx + 1

/-- Length of the run at an index. -/
def Paragraph.runLen (p : Paragraph) (runIdx : ℕ) : ℕ :=
  match p.runs[runIdx]? with
  | none => 0
  | some run => utf8Len run.text

/-- Split the last run of a range, so that the styled part ends with a run; gives its index. -/
def splitRangeEnd (runStart runEnd byteEnd : ℕ) : Edit Paragraph ℕ := do
  let p ← get
  if 0 < byteEnd ∧ byteEnd < p.runLen runEnd then
    let _ ← splitRunAt runEnd byteEnd
    return runEnd
  -- a range that ends at the start of a run leaves the run out
  else if byteEnd = 0 ∧ runEnd > runStart then return runEnd - 1
  else return runEnd

/-- Split the first run of a range, so that the styled part starts with a run; gives the indices of
the first and the last styled run. -/
def splitRangeStart (runStart byteStart endRun : ℕ) : Edit Paragraph (ℕ × ℕ) := do
  let p ← get
  if 0 < byteStart ∧ byteStart < p.runLen runStart then
    let startRun ← splitRunAt runStart byteStart
    return (startRun, if endRun ≥ runStart then endRun + 1 else endRun)
  else if byteStart ≥ p.runLen runStart ∧ byteStart > 0 then return (runStart + 1, endRun)
  else return (runStart, endRun)

/-- Patch the runs from one index through another. -/
def patchRuns (patch : RunStylePatch) (startRun endRun : ℕ) : Edit Paragraph Unit :=
  modify fun p => p.withRuns <| p.runs.mapIdx fun idx run =>
    if startRun ≤ idx ∧ idx ≤ endRun then patch.applyToRun run else run

def applyStyleToParagraphRange (runStart byteStart runEnd byteEnd : ℕ) (patch : RunStylePatch) :
    Edit Paragraph Unit := do
  let p ← get
  if runStart ≥ p.runs.length ∨ runEnd ≥ p.runs.length then throw .editOutOfBounds
  else
    let endRun ← splitRangeEnd runStart runEnd byteEnd
    let (startRun, endRun) ← splitRangeStart runStart byteStart endRun
    patchRuns patch startRun endRun

/-- A paragraph without runs gets an empty one. -/
def ensureRun : Edit Paragraph Unit :=
  modify fun p => if p.runs.isEmpty then p.withRuns [{}] else p

/-- Patch the run of a collapsed range, the last run if the index is beyond. -/
def patchCollapsed (patch : RunStylePatch) (runIdx : ℕ) : Edit Paragraph Unit :=
  modify fun p => p.withRuns (p.runs.modify (min runIdx (p.runs.length - 1)) patch.applyToRun)

def applySetRunStyleOnePara (start stop : Cursor) (patch : RunStylePatch) :
    Edit Paragraph Unit := do
  ensureRun
  if start.runIdx = stop.runIdx ∧ start.byteOffset = stop.byteOffset then
    patchCollapsed patch start.runIdx
  else
    applyStyleToParagraphRange start.runIdx start.byteOffset stop.runIdx stop.byteOffset patch

/-- Style the part of the block `bi` that lies in a range over several blocks. -/
def applySetRunStyleInBlock (start stop : Cursor) (patch : RunStylePatch) (bi : ℕ) :
    Edit Paragraph Unit := do
  ensureRun
  let p ← get
  let (runStart, byteStart) :=
    if bi = start.blockIdx then (start.runIdx, start.byteOffset) else (0, 0)
  let (runEnd, byteEnd) :=
    if bi = stop.blockIdx then (stop.runIdx, stop.byteOffset)
    else (p.runs.length - 1, p.runLen (p.runs.length - 1))
  if bi = start.blockIdx ∧ bi = stop.blockIdx ∧ runStart = runEnd ∧ byteStart = byteEnd then
    patchCollapsed patch runStart
  else applyStyleToParagraphRange runStart byteStart runEnd byteEnd patch

def applySetRunStyle (range : Selection) (patch : RunStylePatch) : Edit Document Unit := do
  let (start, stop) := range.normalized
  if start.sameParagraph stop then
    (paragraphMut start).borrow .editOutOfBounds (applySetRunStyleOnePara start stop patch)
  else if start.cell.isSome ∨ stop.cell.isSome then throw .editOutOfBounds
  else
    let d ← get
    if start.blockIdx > stop.blockIdx ∨ stop.blockIdx ≥ d.blocks.length then
      throw .editOutOfBounds
    else
      (List.range' start.blockIdx (stop.blockIdx + 1 - start.blockIdx)).forM fun bi =>
        (blockAt bi).borrow .editOutOfBounds do
          match ← get with
          | .paragraph _ =>
            asParagraph.borrow .editOutOfBounds (applySetRunStyleInBlock start stop patch bi)
          | _ => return ()

/-! ### Tables -/

/-- Longest row. -/
def Table.maxCols (t : Table) : ℕ := (t.rows.map fun r => r.cells.length).max?.getD 0

/-- A blank cell. -/
def blankCell : TableCell := .fromParagraphs [{}]

/-- A row of blank cells, as many as the first row has. -/
def blankRow (t : Table) : TableRow :=
  { cells :=
      List.replicate (max ((t.rows.head?.map fun r => r.cells.length).getD 1) 1) blankCell }

def insertTableRow (tableIdx atRow : ℕ) : Edit Table EditCommand := do
  let t ← get
  let idx := min atRow t.rows.length
  set { t with rows := t.rows.insertIdx idx (blankRow t) }
  return .deleteTableRow tableIdx idx

def deleteTableRow (tableIdx rowIdx : ℕ) : Edit Table EditCommand := do
  let t ← get
  match t.rows[rowIdx]? with
  | none => throw .editOutOfBounds
  | some row =>
    if t.rows.length ≤ 1 then throw .editOutOfBounds
    else
      set { t with rows := t.rows.eraseIdx rowIdx }
      return .restoreTableRow tableIdx rowIdx row

def restoreTableRow (tableIdx atRow : ℕ) (row : TableRow) : Edit Table EditCommand := do
  let t ← get
  let idx := min atRow t.rows.length
  set { t with rows := t.rows.insertIdx idx row }
  return .deleteTableRow tableIdx idx

/-- Change the cells of a row. -/
def TableRow.mapCells (f : List TableCell → List TableCell) (r : TableRow) : TableRow :=
  { r with cells := f r.cells }

/-- Width that a new column takes over from its left neighbour. -/
def neighborWidth (widths : List U32) (idx : ℕ) : U32 :=
  ((widths[min idx widths.length - 1]?).or widths.head?).getD 2880

def insertTableColumn (tableIdx atCol : ℕ) : Edit Table EditCommand := do
  let t ← get
  if t.rows.isEmpty then throw .editOutOfBounds
  else
    let widths := t.columnWidthsTwips
    set { t with
      rows := t.rows.map (TableRow.mapCells (insertClamped atCol blankCell))
      columnWidthsTwips :=
        if widths.isEmpty then widths else insertClamped atCol (neighborWidth widths atCol) widths }
    return .deleteTableColumn tableIdx atCol

def deleteTableColumn (tableIdx colIdx : ℕ) : Edit Table EditCommand := do
  let t ← get
  if t.maxCols ≤ 1 ∨ colIdx ≥ t.maxCols then throw .editOutOfBounds
  else
    set { t with
      rows := t.rows.map (TableRow.mapCells (List.eraseIdx · colIdx))
      columnWidthsTwips := t.columnWidthsTwips.eraseIdx colIdx }
    return .restoreTableColumn tableIdx colIdx (t.rows.map fun r => r.cells[colIdx]?)
      t.columnWidthsTwips[colIdx]?

def restoreTableColumn (tableIdx atCol : ℕ) (cells : List (Option TableCell))
    (widthTwips : Option U32) : Edit Table EditCommand := do
  let t ← get
  if cells.length ≠ t.rows.length then throw .editOutOfBounds
  else
    set { t with
      rows := List.zipWith (fun r c => TableRow.mapCells (insertOption atCol c) r) t.rows cells
      columnWidthsTwips := insertOption atCol widthTwips t.columnWidthsTwips }
    return .deleteTableColumn tableIdx atCol

def insertCellImage (tableIdx row col imageIdx : ℕ) (image : CellImage) :
    Edit TableCell EditCommand := do
  let cell ← get
  let idx := min imageIdx cell.images.length
  set { cell with images := cell.images.insertIdx idx image }
  return .removeCellImage tableIdx row col idx

def removeCellImage (tableIdx row col imageIdx : ℕ) : Edit TableCell EditCommand := do
  let cell ← get
  match cell.images[imageIdx]? with
  | none => throw .editOutOfBounds
  | some removed =>
    set { cell with images := cell.images.eraseIdx imageIdx }
    return .insertCellImage tableIdx row col imageIdx removed

/-! ### Blocks, bookmarks and comments -/

/-- List numbering id written for a list kind. -/
def numIdForKind : ListKind → Option U32
  | .none => none
  | .bullet => some 1
  | .numbered => some 2

/-- Insert a block, at the end if the index is beyond. -/
def insertBlock (idx : ℕ) (block : Block) : Edit (List Block) EditCommand := do
  let blocks ← get
  let idx := min idx blocks.length
  set (blocks.insertIdx idx block)
  return .removeBlock idx

def removeBlock (blockIdx : ℕ) : Edit (List Block) EditCommand := do
  let blocks ← get
  match blocks[blockIdx]? with
  | none => throw .editOutOfBounds
  | some previous =>
    set (blocks.eraseIdx blockIdx)
    return .replaceBlock blockIdx previous

def replaceBlock (blockIdx : ℕ) (previous : Block) : Edit (List Block) EditCommand := do
  let blocks ← get
  if blockIdx > blocks.length then throw .editOutOfBounds
  else
    match blocks[blockIdx]? with
    | none =>
      set (blocks ++ [previous])
      return .removeBlock blockIdx
    | some current =>
      set (blocks.set blockIdx previous)
      return .replaceBlock blockIdx current

/-- Replace a part and remember what was there. -/
def replace {α : Type} (new : α) (inverse : α → EditCommand) : Edit α EditCommand := do
  let previous ← get
  set new
  return inverse previous

def setSectionPageSetup (endBlockIdx : ℕ) (setup : PageSetup) : Edit Paragraph EditCommand := do
  let p ← get
  set { p with sectionProperties := some setup }
  match p.sectionProperties with
  | none => throw .editOutOfBounds
  | some previous => return .setSectionPageSetup endBlockIdx previous

def addBookmark (bookmark : Bookmark) : Edit (List Bookmark) EditCommand := do
  let bookmarks ← get
  if bookmarks.any fun b => b.name = bookmark.name then throw .editOutOfBounds
  else
    set (bookmarks ++ [bookmark])
    return .removeBookmark bookmark.name

/-- Remove the first entry that satisfies `p`. -/
def removeFirst {α : Type} (p : α → Bool) : Edit (List α) α := do
  let l ← get
  match l.find? p with
  | none => throw .editOutOfBounds
  | some a =>
    set (l.eraseP p)
    return a

def addComment (comment : DocComment) (range : CommentRange) : Edit Document EditCommand := do
  commentsOf.borrow .editOutOfBounds do
    let comments ← get
    if comments.any fun c => c.id = comment.id then throw .editOutOfBounds
    else set (comments ++ [comment])
  commentRangesOf.borrow .editOutOfBounds (modify (· ++ [range]))
  return .removeComment comment.id

def removeComment (id : U32) : Edit Document EditCommand := do
  let comment ← commentsOf.borrow .editOutOfBounds (removeFirst fun c => c.id = id)
  let range ← commentRangesOf.borrow .editOutOfBounds (removeFirst fun r => r.id = id)
  return .addComment comment range

def updateCommentText (id : U32) (text : Text) : Edit (List DocComment) EditCommand := do
  let comments ← get
  let idx := comments.findIdx fun c => c.id = id
  match comments[idx]? with
  | none => throw .editOutOfBounds
  | some comment =>
    set (comments.set idx { comment with text })
    return .updateCommentText id comment.text

/-! ### Applying a command -/

/-- Apply a command; gives an inverse suitable for undo. -/
def applyCommand : EditCommand → Edit Document EditCommand
  | .insertText pos text => do
    applyInsertText pos text
    return .deleteRange ⟨pos, { pos with byteOffset := pos.byteOffset + utf8Len text }⟩
  | .deleteRange range => do
    let (start, stop) := range.normalized
    let text ← extractText start stop
    applyDeleteRange start stop
    return .insertText start text
  | .setRunStyle range style => do
    let d ← get
    applySetRunStyle range style
    return .replaceBlocks d.blocks
  | .setAlignment i alignment => (bodyParagraph i).borrow .editOutOfBounds do
    let p ← get
    set { p with alignment }
    return .replaceParagraph i p
  | .toggleList i kind => (bodyParagraph i).borrow .editOutOfBounds do
    let p ← get
    set { p with list := kind, numId := numIdForKind kind }
    return .replaceParagraph i p
  | .insertTable atBlock table =>
    blocksOf.borrow .editOutOfBounds (insertBlock atBlock (.table table))
  | .insertTableRow i atRow => (bodyTable i).borrow .editOutOfBounds (insertTableRow i atRow)
  | .deleteTableRow i rowIdx => (bodyTable i).borrow .editOutOfBounds (deleteTableRow i rowIdx)
  | .restoreTableRow i atRow row =>
    (bodyTable i).borrow .editOutOfBounds (restoreTableRow i atRow row)
  | .insertTableColumn i atCol =>
    (bodyTable i).borrow .editOutOfBounds (insertTableColumn i atCol)
  | .deleteTableColumn i colIdx =>
    (bodyTable i).borrow .editOutOfBounds (deleteTableColumn i colIdx)
  | .restoreTableColumn i atCol cells widthTwips =>
    (bodyTable i).borrow .editOutOfBounds (restoreTableColumn i atCol cells widthTwips)
  | .insertImage pos image =>
    blocksOf.borrow .editOutOfBounds (insertBlock pos.blockIdx (.image image))
  | .insertCellImage i row col imageIdx image =>
    (bodyCell i row col).borrow .editOutOfBounds (insertCellImage i row col imageIdx image)
  | .removeCellImage i row col imageIdx =>
    (bodyCell i row col).borrow .editOutOfBounds (removeCellImage i row col imageIdx)
  | .replaceParagraph i previous =>
    (bodyParagraph i).borrow .editOutOfBounds (replace previous (.replaceParagraph i))
  | .replaceBlock i previous => blocksOf.borrow .editOutOfBounds (replaceBlock i previous)
  | .replaceBlocks blocks => blocksOf.borrow .editOutOfBounds (replace blocks .replaceBlocks)
  | .setPageSetup setup => pageSetupOf.borrow .editOutOfBounds (replace setup .setPageSetup)
  | .setSectionPageSetup i setup =>
    (bodyParagraph i).borrow .editOutOfBounds (setSectionPageSetup i setup)
  | .setHeader ps => headerOf.borrow .editOutOfBounds (replace ps .setHeader)
  | .setFooter ps => footerOf.borrow .editOutOfBounds (replace ps .setFooter)
  | .setHeaderFirst ps => headerFirstOf.borrow .editOutOfBounds (replace ps .setHeaderFirst)
  | .setFooterFirst ps => footerFirstOf.borrow .editOutOfBounds (replace ps .setFooterFirst)
  | .setHeaderEven ps => headerEvenOf.borrow .editOutOfBounds (replace ps .setHeaderEven)
  | .setFooterEven ps => footerEvenOf.borrow .editOutOfBounds (replace ps .setFooterEven)
  | .addBookmark bookmark => bookmarksOf.borrow .editOutOfBounds (addBookmark bookmark)
  | .removeBookmark name => bookmarksOf.borrow .editOutOfBounds do
    let bookmark ← removeFirst fun b => b.name = name
    return .addBookmark bookmark
  | .addComment comment range => addComment comment range
  | .removeComment id => removeComment id
  | .updateCommentText id text => commentsOf.borrow .editOutOfBounds (updateCommentText id text)
  | .removeBlock i => blocksOf.borrow .editOutOfBounds (removeBlock i)

/-! ### The stacks -/

/-- A command that was applied, with its inverse. -/
structure StackEntry where
  forward : EditCommand
  inverse : EditCommand

/-- Undo and redo stacks, most recent entry first. -/
structure UndoStack where
  past : List StackEntry := []
  future : List EditCommand := []
  dirty : Bool := false
  savedLen : ℕ := 0

namespace UndoStack

/-- The document next to its stacks. -/
def documentOf : Focus (UndoStack × Document) Document :=
  .field Prod.snd (fun d s => (s.1, d)) (fun _ _ => rfl) (fun _ => rfl) fun _ _ _ => rfl

/-- Apply a command, recording undo information. -/
def push (cmd : EditCommand) : Edit (UndoStack × Document) Unit := do
  let inverse ← documentOf.borrow .editOutOfBounds (applyCommand cmd)
  modify fun (st, d) =>
    ({ st with past := ⟨cmd, inverse⟩ :: st.past, future := [], dirty := true }, d)

/-- Undo the last command. The entry is taken off before its inverse is applied. -/
def undo : Edit (UndoStack × Document) Unit := do
  let (st, d) ← get
  match st.past with
  | [] => throw .editOutOfBounds
  | entry :: past =>
    set ({ st with past }, d)
    let _ ← documentOf.borrow .editOutOfBounds (applyCommand entry.inverse)
    modify fun (st, d) =>
      ({ st with future := entry.forward :: st.future, dirty := st.past.length ≠ st.savedLen }, d)

/-- Redo the last undone command. -/
def redo : Edit (UndoStack × Document) Unit := do
  let (st, d) ← get
  match st.future with
  | [] => throw .editOutOfBounds
  | cmd :: future =>
    set ({ st with future }, d)
    let inverse ← documentOf.borrow .editOutOfBounds (applyCommand cmd)
    modify fun (st, d) => ({ st with past := ⟨cmd, inverse⟩ :: st.past, dirty := true }, d)

/-- Mark the document as saved. -/
def markClean (st : UndoStack) : UndoStack :=
  { st with savedLen := st.past.length, dirty := false }

end UndoStack

end Orchid.Document
