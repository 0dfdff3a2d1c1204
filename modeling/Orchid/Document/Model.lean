import Orchid.Base.Machine
import Orchid.Lib.Joined

/-!
# The document model

Runs, paragraphs, tables, images and the document, and the flat text. Indices and byte lengths are
natural numbers. The parts of a document that no operation here reads or writes (the named style
tables and the retained package parts) are left out.
-/

namespace Orchid.Document

open Orchid.Lib

/-! ### Runs -/

/-- Opaque XML fragment preserved for round-trip fidelity. -/
structure OpaqueXmlNode where
  positionHint : Text
  rawXml : Bytes

/-- RGB colour. -/
structure Rgb where
  r : U8
  g : U8
  b : U8

/-- Character-level style for a text run. -/
structure RunStyle where
  bold : Bool := false
  italic : Bool := false
  underline : Bool := false
  strikethrough : Bool := false
  doubleStrikethrough : Bool := false
  highlight : Bool := false
  superscript : Bool := false
  subscript : Bool := false
  allCaps : Bool := false
  smallCaps : Bool := false
  vanish : Bool := false
  shadow : Bool := false
  emboss : Bool := false
  imprint : Bool := false
  color : Option Rgb := none
  fontFamily : Option Text := none
  fontSizePt : Option F32 := none

/-- Hyperlink with an external target, an internal bookmark or both. -/
structure Hyperlink where
  url : Text
  rId : Option Text
  bookmark : Option Text

/-- Simple field kinds. -/
inductive DocField where
  | page
  | numPages
  | date
  | fileName
deriving DecidableEq

/-- A contiguous run of text with uniform style. -/
structure Run where
  text : Text := []
  style : RunStyle := {}
  styleId : Option Text := none
  hyperlink : Option Hyperlink := none
  field : Option DocField := none

/-! ### Paragraphs -/

/-- Paragraph alignment. -/
inductive Alignment where
  | left
  | center
  | right
  | justify
deriving DecidableEq

/-- List marker kind for a paragraph. -/
inductive ListKind where
  | none
  | bullet
  | numbered
deriving DecidableEq

/-- How a section ends relative to the next. -/
inductive SectionBreakType where
  | nextPage
  | continuous
deriving DecidableEq

/-- How the line spacing of a paragraph is measured. -/
inductive LineSpacingRule where
  | auto
  | exact
  | atLeast
deriving DecidableEq

/-- Page size and margins in twentieths of a point, by default US Letter with one-inch margins. -/
structure PageSetup where
  widthTwips : U32 := 12240
  heightTwips : U32 := 15840
  marginTopTwips : U32 := 1440
  marginBottomTwips : U32 := 1440
  marginLeftTwips : U32 := 1440
  marginRightTwips : U32 := 1440
  headerDistanceTwips : U32 := 720
  footerDistanceTwips : U32 := 720
  headerRId : Option Text := none
  footerRId : Option Text := none
  headerFirstRId : Option Text := none
  footerFirstRId : Option Text := none
  headerEvenRId : Option Text := none
  footerEvenRId : Option Text := none
  titlePage : Bool := false
  evenAndOddHeaders : Bool := false
  sectionBreak : SectionBreakType := .nextPage

/-- A paragraph: sequence of runs plus paragraph-level properties. -/
structure Paragraph where
  runs : List Run := []
  alignment : Alignment := .left
  list : ListKind := .none
  listLevel : U8 := 0
  numId : Option U32 := none
  pageBreakBefore : Bool := false
  keepNext : Bool := false
  keepLines : Bool := false
  widowControl : Bool := false
  contextualSpacing : Bool := false
  bidi : Bool := false
  suppressAutoHyphens : Bool := false
  outlineLevel : Option U8 := none
  styleId : Option Text := none
  spaceBeforeTwips : U32 := 0
  spaceAfterTwips : U32 := 0
  lineSpacing : U32 := 0
  lineSpacingRule : LineSpacingRule := .auto
  indentLeftTwips : U32 := 0
  indentFirstLineTwips : BitVec 32 := 0
  indentRightTwips : U32 := 0
  shadeFill : Option Rgb := none
  borderSides : U8 := 0
  sectionProperties : Option PageSetup := none
  unsupported : List OpaqueXmlNode := []

/-- Concatenate all run text. -/
def Paragraph.plainText (p : Paragraph) : Text := p.runs.flatMap Run.text

/-! ### Blocks -/

/-- Image codec for inline images. -/
inductive ImageFormat where
  | png
  | jpeg
  | gif
  | bmp
  | other
deriving DecidableEq

/-- An inline image. -/
structure InlineImage where
  bytes : Bytes
  format : ImageFormat
  widthPx : U32
  heightPx : U32
  rId : Option Text
  partPath : Option Text

/-- An image inside a table cell, anchored after a paragraph. -/
structure CellImage where
  afterParagraph : ℕ
  image : InlineImage

/-- Vertical merge state for a table cell. -/
inductive VMerge where
  | restart
  | continue
deriving DecidableEq

/-- One cell in a table. -/
structure TableCell where
  paragraphs : List Paragraph := []
  images : List CellImage := []
  gridSpan : Option U32 := none
  vMerge : Option VMerge := none
  shadeFill : Option Rgb := none
  borderSides : U8 := 0

/-- Cell with paragraphs and no images. -/
def TableCell.fromParagraphs (paragraphs : List Paragraph) : TableCell := { paragraphs }

/-- One row in a table. -/
structure TableRow where
  cells : List TableCell := []

/-- A table of cells. -/
structure Table where
  rows : List TableRow := []
  columnWidthsTwips : List U32 := []
  unsupported : List OpaqueXmlNode := []

/-- Top-level block in the document body. -/
inductive Block where
  | paragraph (p : Paragraph)
  | table (t : Table)
  | image (i : InlineImage)

/-! ### The document -/

/-- Named destination at a byte offset of the flat text. -/
structure Bookmark where
  name : Text
  plainOffset : ℕ

/-- Comment payload. -/
structure DocComment where
  id : U32
  author : Text := []
  initials : Text := []
  date : Text := []
  text : Text := []

/-- Anchored comment span in the flat text. -/
structure CommentRange where
  id : U32
  startPlain : ℕ
  endPlain : ℕ

/-- Concatenate all paragraph text of the body with line breaks between. -/
def bodyText (blocks : List Block) : Text :=
  blocks.foldl (fun out block =>
    match block with
    | .paragraph p => pushSeparated '\n' out p.plainText
    | .table t =>
      t.rows.foldl (fun out row =>
        row.cells.foldl (fun out cell =>
          cell.paragraphs.foldl (fun out p => pushSeparated '\n' out p.plainText) out) out) out
    | .image _ => out) []

end Orchid.Document

namespace Orchid

open Document

/-- Full in-memory document. -/
structure Document where
  blocks : List Block := []
  pageSetup : PageSetup := {}
  header : List Paragraph := []
  footer : List Paragraph := []
  headerFirst : List Paragraph := []
  footerFirst : List Paragraph := []
  headerEven : List Paragraph := []
  footerEven : List Paragraph := []
  bookmarks : List Bookmark := []
  comments : List DocComment := []
  commentRanges : List CommentRange := []

/-- The flat text that byte offsets count in. -/
def Document.plainText (d : Document) : Text := bodyText d.blocks

end Orchid
