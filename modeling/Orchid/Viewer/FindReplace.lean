import Orchid.Base.Machine
import Orchid.Lib.ByteText
import Orchid.Lib.LineColumn

/-!
# Find and replace in the text viewer

The buffer of the text viewer with the selection that finding leaves, in bytes, and the edits that
replacing makes, at lines and columns.
-/

namespace Orchid.Viewer

open Lib

open String (utf8Len)

/-! ### Regular expressions -/

/-- `FindOptions` -/
structure FindOptions where
  regex : Bool
  multiline : Bool

/-- A compiled `Regex`: `find_iter` and `is_match`, as documented. -/
structure Regex where
  findIter : Text → List (ℕ × ℕ)
  isMatch : Text → Bool
  /-- A match is a range between two characters. -/
  range : ∀ t m, m ∈ findIter t →
    ∃ u s w, t = u ++ s ++ w ∧ utf8Len u = m.1 ∧ m.1 + utf8Len s = m.2
  /-- Matches come in order and do not overlap. -/
  ordered : ∀ t, (findIter t).Pairwise fun m m' => m.1 < m'.1 ∧ m.2 ≤ m'.1
  isMatch_iff : ∀ t, isMatch t = true ↔ findIter t ≠ []

inductive ViewerError
  | invalidRegex
  | editOutOfBounds

/-- The crate: a builder for patterns that ignore case, and `regex::escape`. -/
structure RegexCrate where
  build : Text → (multiline : Bool) → Except ViewerError Regex
  escape : Text → Text

/-- `compile_query` -/
def compileQuery (rs : RegexCrate) (query : Text) (opts : FindOptions) :
    Except ViewerError Regex :=
  rs.build (if opts.regex then query else rs.escape query) opts.multiline

/-- `collect_matches` -/
def collectMatches (rs : RegexCrate) (haystack query : Text) (opts : FindOptions) :
    Except ViewerError (List (ℕ × ℕ)) :=
  if query = [] then .ok []
  else
    match compileQuery rs query opts with
    | .error e => .error e
    | .ok re => .ok (re.findIter haystack)

/-- `pick_match` -/
def pickMatch (ms : List (ℕ × ℕ)) (selLo selHi : ℕ) (forward : Bool) : Option (ℕ × ℕ) :=
  if forward then (ms.find? fun m => decide (selHi ≤ m.1)).or ms.head?
  else (ms.reverse.find? fun m => decide (m.2 ≤ selLo)).or ms.getLast?

/-! ### Lines and columns -/

/-- The line breaks of `ropey`; a carriage return and a line feed are one. -/
def endsLine (c : Char) (next : Option Char) : Bool :=
  (c == '\n' || c == '\x0b' || c == '\x0c' || c == '\u0085' || c == '\u2028' || c == '\u2029') ||
    (c == '\r' && next != some '\n')

/-- `line_col_at_char` -/
def lineColAtChar (t : Text) (i : ℕ) : ℕ × ℕ := lineCol endsLine t (min i t.length)

/-- `line_col_to_char` -/
def lineColToChar (t : Text) (pos : ℕ × ℕ) : Option ℕ :=
  indexAt endsLine (fun c => c == '\n') t pos.1 pos.2

/-- `byte_to_char`, at the character boundary before the byte. -/
def byteToChar : Text → ℕ → ℕ
  | [], _ => 0
  | c :: t, byte => if c.utf8Size ≤ byte then byteToChar t (byte - c.utf8Size) + 1 else 0

/-! ### The buffer -/

namespace TextBuffer

/-- `line`: a line without the line feed at its end. -/
def line : Text → ℕ → Option Text
  | [], 0 => some []
  | [], _ + 1 => none
  | c :: t, 0 =>
    if endsLine c t.head? then some (if c = '\n' then [] else [c])
    else (line t 0).map fun rest => c :: rest
  | c :: t, idx + 1 => line t (if endsLine c t.head? then idx else idx + 1)

/-- `byte_index` -/
def byteIndex (rope : Text) (place : ℕ × ℕ) : Option ℕ :=
  (lineColToChar rope place).map fun i => utf8Len (rope.take i)

/-- `tree_sitter_point`: the column in bytes. -/
def treeSitterPoint (rope : Text) (place : ℕ × ℕ) : Option (ℕ × ℕ) := do
  let lineText ← line rope place.1
  if lineText.length < place.2 then none
  else some (place.1, utf8Len (lineText.take place.2))

/-- `text_range` -/
def textRange (rope : Text) (start stop : ℕ × ℕ) : Except ViewerError Text :=
  match lineColToChar rope start, lineColToChar rope stop with
  | some i, some j =>
    if j < i then .error .editOutOfBounds else .ok ((rope.take j).drop i)
  | _, _ => .error .editOutOfBounds

/-- `insert` -/
def insert (rope : Text) (place : ℕ × ℕ) (text : Text) : Except ViewerError Text :=
  match lineColToChar rope place with
  | some i => .ok (rope.take i ++ text ++ rope.drop i)
  | none => .error .editOutOfBounds

/-- `delete` -/
def delete (rope : Text) (start stop : ℕ × ℕ) : Except ViewerError Text :=
  match lineColToChar rope start, lineColToChar rope stop with
  | some i, some j =>
    if j < i then .error .editOutOfBounds else .ok (rope.take i ++ rope.drop j)
  | _, _ => .error .editOutOfBounds

end TextBuffer

/-- The `InputEdit` of the parser. -/
structure InputEdit where
  startByte : ℕ
  oldEndByte : ℕ
  newEndByte : ℕ
  startPosition : ℕ × ℕ
  oldEndPosition : ℕ × ℕ
  newEndPosition : ℕ × ℕ

/-- `point_after_insert` -/
def pointAfterInsert (start : ℕ × ℕ) (text : Text) : ℕ × ℕ :=
  if text.all fun c => c != '\n' then (start.1, start.2 + utf8Len text)
  else (start.1 + (text.filter fun c => c == '\n').length,
    utf8Len (text.reverse.takeWhile fun c => c != '\n'))

/-- `insert_edit` -/
def insertEdit (buffer : Text) (place : ℕ × ℕ) (text : Text) : Except ViewerError InputEdit :=
  match TextBuffer.byteIndex buffer place, TextBuffer.treeSitterPoint buffer place with
  | some startByte, some startPosition =>
    .ok ⟨startByte, startByte, startByte + utf8Len text, startPosition, startPosition,
      pointAfterInsert startPosition text⟩
  | _, _ => .error .editOutOfBounds

/-- `delete_edit` -/
def deleteEdit (buffer : Text) (start stop : ℕ × ℕ) : Except ViewerError InputEdit :=
  match TextBuffer.byteIndex buffer start, TextBuffer.byteIndex buffer stop,
    TextBuffer.treeSitterPoint buffer start, TextBuffer.treeSitterPoint buffer stop with
  | some startByte, some oldEndByte, some startPosition, some oldEndPosition =>
    .ok ⟨startByte, oldEndByte, startByte, startPosition, oldEndPosition, startPosition⟩
  | _, _, _, _ => .error .editOutOfBounds

/-! ### The viewer -/

/-- `TextDisplayMode` -/
inductive TextDisplayMode
  | text
  | hex
  | binary
deriving DecidableEq

/-- A change of the rope, by characters. -/
inductive Edit
  | delete (start stop : ℕ)
  | insert (place : ℕ) (text : Text)
deriving DecidableEq

/-- A `TextViewer` with a buffer. The last field is for the statements only: the changes that
`delete` and `insert` have made. -/
structure TextViewer where
  buffer : Text
  display : TextDisplayMode
  /-- What is shown in the other display modes. -/
  dump : Text
  editing : Bool
  cursor : ℕ × ℕ
  findAnchor : ℕ
  findCursor : ℕ
  findMatchIndex : ℕ
  findMatchCount : ℕ
  findGen : ℕ
  edits : List Edit

namespace TextViewer

/-- `displayed_text` -/
def displayedText (v : TextViewer) : Text :=
  match v.display with
  | .text => v.buffer
  | _ => v.dump

/-- `record_find` -/
def recordFind (v : TextViewer) (m : ℕ × ℕ) (index count : ℕ) : TextViewer :=
  { v with
    findAnchor := m.1, findCursor := m.2, findMatchIndex := index, findMatchCount := count,
    findGen := v.findGen + 1 }

/-- `clear_find` -/
def clearFind (v : TextViewer) : TextViewer :=
  { v with findMatchIndex := 0, findMatchCount := 0, findGen := v.findGen + 1 }

/-- `find` -/
def find (rs : RegexCrate) (v : TextViewer) (query : Text) (forward : Bool) (opts : FindOptions) :
    Except ViewerError (Bool × TextViewer) :=
  if query = [] then .ok (false, v)
  else
    match collectMatches rs v.displayedText query opts with
    | .error e => .error e
    | .ok ms =>
      match pickMatch ms v.findAnchor v.findCursor forward with
      | none => .ok (false, v.clearFind)
      | some m =>
        let index := ((ms.findIdx? fun m' => decide (m'.1 = m.1)).map fun i => i + 1).getD 0
        .ok (true, v.recordFind m index ms.length)

/-- `cursor_at_byte` -/
def cursorAtByte (v : TextViewer) (byte : ℕ) : ℕ × ℕ :=
  lineColAtChar v.buffer (byteToChar v.buffer byte)

/-- `delete` -/
def delete (v : TextViewer) (start stop : ℕ × ℕ) : Except ViewerError TextViewer :=
  if v.editing = false then .error .editOutOfBounds
  else do
    let _ ← deleteEdit v.buffer start stop
    let _ ← TextBuffer.textRange v.buffer start stop
    match lineColToChar v.buffer start, lineColToChar v.buffer stop with
    | some i, some j =>
      if j < i then .error .editOutOfBounds
      else .ok { v with
        buffer := v.buffer.take i ++ v.buffer.drop j
        cursor := start
        edits := v.edits ++ [.delete i j] }
    | _, _ => .error .editOutOfBounds

/-- `cursor_after_insert` -/
def cursorAfterInsert (start : ℕ × ℕ) (text : Text) : ℕ × ℕ :=
  if text.all fun c => c != '\n' then (start.1, start.2 + text.length)
  else (start.1 + (text.filter fun c => c == '\n').length,
    (text.reverse.takeWhile fun c => c != '\n').length)

/-- `insert` -/
def insert (v : TextViewer) (text : Text) : Except ViewerError TextViewer :=
  if v.editing = false then .error .editOutOfBounds
  else do
    let _ ← insertEdit v.buffer v.cursor text
    match lineColToChar v.buffer v.cursor with
    | some i => .ok { v with
        buffer := v.buffer.take i ++ text ++ v.buffer.drop i
        cursor := cursorAfterInsert v.cursor text
        edits := v.edits ++ [.insert i text] }
    | none => .error .editOutOfBounds

/-! ### Replacing one match -/

/-- What the selection holds, if it lies between two characters. -/
def selected (v : TextViewer) : Text :=
  (sliceBytes v.displayedText v.findAnchor v.findCursor).getD []

/-- Whether the selection counts as a match. -/
def already (re : Regex) (v : TextViewer) : Bool :=
  !v.selected.isEmpty && re.isMatch v.selected &&
    decide (utf8Len v.selected = v.findCursor - v.findAnchor)

/-- The selected bytes are replaced. -/
def replaceSelection (v : TextViewer) (replacement : Text) : Except ViewerError TextViewer :=
  let start := v.cursorAtByte v.findAnchor
  let stop := v.cursorAtByte v.findCursor
  match if start ≠ stop then v.delete start stop else .ok v with
  | .error e => .error e
  | .ok v =>
    if replacement ≠ [] then { v with cursor := start }.insert replacement else .ok v

/-- `replace_current` -/
def replaceCurrent (rs : RegexCrate) (v : TextViewer) (query replacement : Text)
    (opts : FindOptions) : Except ViewerError (Bool × TextViewer) :=
  if v.display ≠ .text then .ok (false, v)
  else if query = [] then .ok (false, v)
  else
    let v := { v with editing := true }
    match compileQuery rs query opts with
    | .error e => .error e
    | .ok re =>
      match if v.already re then .ok (true, v) else v.find rs query true opts with
      | .error e => .error e
      | .ok (false, v) => .ok (false, v)
      | .ok (true, v) =>
        match v.replaceSelection replacement with
        | .error e => .error e
        | .ok v =>
          match v.find rs query true opts with
          | .error e => .error e
          | .ok (_, v) => .ok (true, v)

/-! ### Replacing all matches -/

/-- The text behind a byte with the matches there replaced. -/
def replacedFrom (haystack replacement : Text) : ℕ → List (ℕ × ℕ) → Text
  | last, [] => (sliceBytes haystack last (utf8Len haystack)).getD []
  | last, m :: ms =>
    (sliceBytes haystack last m.1).getD [] ++ replacement ++
      replacedFrom haystack replacement m.2 ms

/-- `str::replace` of CR LF by LF -/
def normalizeLines : Text → Text
  | '\r' :: '\n' :: t => '\n' :: normalizeLines t
  | c :: t => c :: normalizeLines t
  | [] => []

/-- The longest common start of two texts, and what is behind it in each. -/
def splitCommon : Text → Text → Text × Text × Text
  | c :: t, d :: t' =>
    if c = d then
      let (u, x, y) := splitCommon t t'
      (c :: u, x, y)
    else ([], c :: t, d :: t')
  | t, t' => ([], t, t')

/-- `single_span_diff`: the common start and, of what is behind it, the part of either text before
the common end. -/
def singleSpanDiff (t t' : Text) : Text × Text × Text :=
  let (u, x, y) := splitCommon t t'
  let (_, x', y') := splitCommon x.reverse y.reverse
  (u, x'.reverse, y'.reverse)

/-- `replace_content`: what is only in the old text is deleted, and what is only in the new one is
inserted at the line and column where that began. -/
def replaceContent (v : TextViewer) (text : Text) : Except ViewerError TextViewer :=
  if v.editing = false then .error .editOutOfBounds
  else
    let normalized := normalizeLines text
    if v.buffer = normalized then .ok v
    else
      let (u, deleted, inserted) := singleSpanDiff v.buffer normalized
      let start := lineColAtChar v.buffer u.length
      let stop := lineColAtChar v.buffer (u.length + deleted.length)
      match lineColToChar v.buffer start, lineColToChar v.buffer stop with
      | some i, some j =>
        let shorter := if deleted = [] then v.buffer else v.buffer.take i ++ v.buffer.drop j
        match lineColToChar shorter start with
        | some i =>
          .ok { v with
            buffer := if inserted = [] then shorter
              else shorter.take i ++ inserted ++ shorter.drop i
            cursor := cursorAfterInsert start inserted }
        | none => .error .editOutOfBounds
      | _, _ => .error .editOutOfBounds

/-- `replace_all` -/
def replaceAll (rs : RegexCrate) (v : TextViewer) (query replacement : Text) (opts : FindOptions) :
    Except ViewerError (ℕ × TextViewer) :=
  if v.display ≠ .text then .ok (0, v)
  else if query = [] then .ok (0, v)
  else
    let v := { v with editing := true }
    match collectMatches rs v.displayedText query opts with
    | .error e => .error e
    | .ok [] => .ok (0, v.clearFind)
    | .ok ms =>
      match v.replaceContent (replacedFrom v.displayedText replacement 0 ms) with
      | .error e => .error e
      | .ok v => .ok (ms.length, v.clearFind)

end TextViewer

end Orchid.Viewer
