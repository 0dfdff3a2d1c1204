import Mathlib.Algebra.Order.Floor.Ring
import Mathlib.Data.List.DropRight
import Mathlib.Data.List.Infix
import Mathlib.Data.List.Nodup
import Orchid.Lib.Binary64
import Orchid.Lib.ByteText
import Orchid.Sheet.Address
import Orchid.Sheet.Formula

/-!
# Spilling formulas

A formula may have several values, which spill over the cells beside and below its own;
`place_spill`, `place_text_column`, `place_mixed_grid` and `recalculate_sheet` in
`orchid-viewers/src/office/calc.rs`. The cells that earlier formulas of the pass have spilled over
are taken, and so are cells with a formula or text, if `sheet_cells` reads it.
-/

namespace Orchid.Sheet

open Lib (Binary64)

open String (utf8Len)

/-! ### The cells of a sheet -/

/-- What is before the first place of a text in another, and what is behind it. -/
def splitAtText (needle : Text) : Text → Option (Text × Text)
  | [] => if needle = [] then some ([], []) else none
  | c :: t =>
    match dropStart? (c :: t) needle with
    | some rest => some ([], rest)
    | none => (splitAtText needle t).map fun (u, rest) => (c :: u, rest)

/-- `unescape_xml` -/
def unescapeXml : Text → Text
  | '&' :: 'a' :: 'm' :: 'p' :: ';' :: t => '&' :: unescapeXml t
  | '&' :: 'l' :: 't' :: ';' :: t => '<' :: unescapeXml t
  | '&' :: 'g' :: 't' :: ';' :: t => '>' :: unescapeXml t
  | '&' :: 'q' :: 'u' :: 'o' :: 't' :: ';' :: t => '"' :: unescapeXml t
  | '&' :: 'a' :: 'p' :: 'o' :: 's' :: ';' :: t => '\'' :: unescapeXml t
  | c :: t => c :: unescapeXml t
  | [] => []

/-- `FormulaSlot` -/
inductive FormulaSlot
  | none
  | plain (text : Text)
  | master (si : ℕ) (text : Text)
  | follower (si : ℕ)

/-- `formula_si` -/
def formulaSi (tag : Text) : Option ℕ := do
  let (_, rest) ← splitAtText "si=\"".toList tag
  let (value, _) ← splitAtText "\"".toList rest
  parseU32 value

/-- `formula_slot`, of what is between the tags of a cell. -/
def formulaSlot (body : Text) : FormulaSlot :=
  match splitAtText "<f".toList body with
  | .none => .none
  | some (_, rest) =>
    if rest.head? = some '>' ∨ rest.head? = some ' ' ∨ rest.head? = some '/' then
      match splitAtText ">".toList rest with
      | .none => .none
      | some (inside, behind) =>
        let tag := "<f".toList ++ inside ++ ">".toList
        let shared := "t=\"shared\"".toList <:+: tag ∨ "t='shared'".toList <:+: tag
        if "/>".toList <:+ tag then
          match formulaSi tag with
          | some si => if shared then .follower si else .none
          | .none => .none
        else if "t=".toList <:+: tag ∧ ¬shared then .none
        else
          match splitAtText "</f>".toList behind with
          | .none => .none
          | some (inner, _) =>
            let text := unescapeXml (trim inner)
            let text := trim ((dropStart? text ['=']).getD text)
            if text = [] then .none
            else if shared then
              match formulaSi tag with
              | some si => .master si text
              | .none => .none
            else .plain text
    else .none

/-- A cell in the text of a sheet: where it begins, its opening tag, and what is between its
tags. -/
structure CellXml where
  start : ℕ
  address : Text
  openTag : Text
  body : Text

/-- The first master of a shared formula, with its address. -/
def masterOf (sheet : List CellXml) (si : ℕ) : Option (Text × Text) :=
  sheet.findSome? fun cell =>
    match formulaSlot cell.body with
    | .master si' text => if si' = si then some (cell.address, text) else none
    | _ => none

/-- `shift_formula_between` -/
def shiftFormulaBetween (origin target formula : Text) : Option Text := do
  let (originCol, originRow) ← splitAddress origin
  let (targetCol, targetRow) ← splitAddress target
  shiftFormula formula (targetCol - originCol) (targetRow - originRow)

/-- The formula of a cell as it is read, `expand_shared_formulas` included. -/
def readFormula (sheet : List CellXml) (cell : CellXml) : Option Text :=
  match formulaSlot cell.body with
  | .none => none
  | .plain text => some text
  | .master _ text => some text
  | .follower si =>
    (masterOf sheet si).bind fun (origin, text) => shiftFormulaBetween origin cell.address text

/-- `value_span`, of what is between the tags of a cell. -/
def valueSpan (start : ℕ) (body : Text) : Option (ℕ × ℕ) := do
  let (before, rest) ← splitAtText "<v>".toList body
  let (value, _) ← splitAtText "</v>".toList rest
  let start := start + utf8Len before + 3
  some (start, start + utf8Len value)

/-- `SheetCellRef`, with the opening tag and what is between the tags beside the spans. -/
structure SheetCellRef where
  address : Text
  formula : Option Text
  valueSpan : Option (ℕ × ℕ)
  insertAt : Option ℕ
  openSpan : ℕ × ℕ
  openTag : Text
  body : Text
  textCell : Bool

/-- A cell as `sheet_cells` reads it. -/
def CellXml.read (sheet : List CellXml) (cell : CellXml) : SheetCellRef :=
  let openEnd := cell.start + utf8Len cell.openTag
  { address := cell.address
    formula := readFormula sheet cell
    valueSpan := Sheet.valueSpan openEnd cell.body
    insertAt := some (openEnd + utf8Len cell.body)
    openSpan := (cell.start, openEnd)
    openTag := cell.openTag
    body := cell.body
    textCell := ["t=\"s\"", "t=\"str\"", "t=\"inlineStr\""].any fun mark =>
      decide (mark.toList <:+: cell.openTag) }

/-- The cells of a sheet, each of which has a place for a value. -/
structure SheetCells where
  cells : List SheetCellRef
  inserts : ∀ cell ∈ cells, cell.insertAt.isSome

/-- `element_has_formula` -/
def elementHasFormula (element : Text) : Bool :=
  ["<f>", "<f ", "<f/>"].any fun mark => decide (mark.toList <:+: element)

/-- The opening tag says that the cell holds text, with quotation marks of either kind. -/
def holdsText (openTag : Text) : Bool :=
  ["t=\"s\"", "t=\"str\"", "t=\"inlineStr\"", "t='s'", "t='str'", "t='inlineStr'"].any fun mark =>
    decide (mark.toList <:+: openTag)

/-- A cell holds a formula or text, read or not. -/
def SheetCellRef.Holds (cell : SheetCellRef) : Prop :=
  cell.formula.isSome = true ∨
    elementHasFormula (cell.openTag ++ cell.body ++ "</c>".toList) = true ∨
    cell.textCell = true ∨ holdsText cell.openTag = true

instance (cell : SheetCellRef) : Decidable cell.Holds := inferInstanceAs (Decidable (_ ∨ _))

/-! ### What formulas come to -/

/-- `GridCell` -/
inductive GridCell
  | num (number : Binary64)
  | text (part : Text)

/-- `Spill`. The calculations refuse what is not finite, and take few cells. -/
structure Spill where
  values : List Binary64
  columns : ℕ
  allOrNothing : Bool
  finite : ∀ value ∈ values, ∃ x, value = .finite x
  short : values.length < 2 ^ 32

/-- `TextSpill` -/
inductive TextSpill
  | absent
  | invalid
  | parts (parts : List Text)
  | grid (columns : ℕ) (cells : List GridCell) (short : cells.length < 2 ^ 32)

/-- What the formulas of a pass come to, each in its cell: `text_spill_call`, `try_spill` and
`eval_formula`. -/
structure Formulas where
  textSpillCall : SheetCellRef → Text → TextSpill
  trySpill : SheetCellRef → Text → Option Spill
  eval : SheetCellRef → Text → Option GridCell

/-- The first cell at an address. -/
def findCell (cells : List SheetCellRef) (address : Text) : Option SheetCellRef :=
  cells.find? fun cell => cell.address = address

/-! ### Places -/

/-- The address of an offset; the one of the formula is not computed anew. -/
def offsetAddress (origin : Text) (row col : ℕ) : Option Text :=
  if row = 0 ∧ col = 0 then some origin else shiftAddress origin row col

/-- A cell that a spill must leave alone. -/
def blocked (cells : List SheetCellRef) (taken : List Text) (address : Text) : Bool :=
  taken.contains address ||
    (findCell cells address).all fun cell => cell.formula.isSome || cell.textCell

/-- The address for the value at `step`, if it is free. -/
def place (cells : List SheetCellRef) (taken : List Text) (origin : Text) (columns step : ℕ) :
    Option Text := do
  let row := step % 2 ^ 32 / columns
  let col := step % 2 ^ 32 % columns
  let address ← offsetAddress origin row col
  if (0 < row ∨ 0 < col) ∧ blocked cells taken address = true then none else some address

/-- The loop that the three placements share. -/
def placeFrom {α : Type*} (place : ℕ → Option Text) (allOrNothing : Bool) :
    ℕ → List α → Option (List (Text × α))
  | _, [] => some []
  | step, value :: rest =>
    match place step with
    | none => if allOrNothing then none else some []
    | some address => (placeFrom place allOrNothing (step + 1) rest).map ((address, value) :: ·)

/-- `place_spill` -/
def placeSpill (origin : Text) (spill : Spill) (cells : List SheetCellRef) (taken : List Text) :
    Option (List (Text × Binary64)) :=
  if spill.columns = 0 then none
  else do
    let writes ←
      placeFrom (place cells taken origin spill.columns) spill.allOrNothing 0 spill.values
    if spill.allOrNothing ∧ writes.length ≠ spill.values.length then none
    else if writes = [] then none
    else some writes

/-- `place_text_column` -/
def placeTextColumn (origin : Text) (parts : List Text) (cells : List SheetCellRef)
    (taken : List Text) : Option (List (Text × Text)) :=
  if parts = [] ∨ 256 < parts.length then none
  else placeFrom (place cells taken origin 1) true 0 parts

/-! ### Edits -/

/-- The text between two positions is replaced. -/
structure Edit where
  start : ℕ
  finish : ℕ
  text : Text

/-- `escape` -/
def escape (text : Text) : Text :=
  text.flatMap fun ch =>
    if ch = '&' then "&amp;".toList
    else if ch = '<' then "&lt;".toList
    else if ch = '>' then "&gt;".toList
    else if ch = '"' then "&quot;".toList
    else [ch]

/-- `open_tag_inline` -/
def openTagInline (tag : Text) : Option Text :=
  if "t=".toList <:+: tag then none
  else if '>' ∈ tag then some ((tag.rdropWhile (· ≠ '>')).dropLast ++ " t=\"inlineStr\">".toList)
  else none

/-- `push_text_edit` -/
def textEdits (cell : SheetCellRef) (text : Text) : Option (List Edit) := do
  let inline := "<is><t>".toList ++ escape text ++ "</t></is>".toList
  let tag ← openTagInline cell.openTag
  let opening : Edit := ⟨cell.openSpan.1, cell.openSpan.2, tag⟩
  match cell.valueSpan, cell.insertAt with
  | some (start, finish), _ => some [opening, ⟨start - 3, finish + 4, inline⟩]
  | none, some pos => some [opening, ⟨pos, pos, inline⟩]
  | none, none => none

/-- `1e-9` -/
def billionth : ℚ := 4835703278458517 / 2 ^ 82

/-- `f64::round` -/
def roundAway (x : ℚ) : ℤ := if 0 ≤ x then ⌊x + 1 / 2⌋ else -⌊-x + 1 / 2⌋

/-- The digits of `{:.8}`; a half goes to the even neighbour. -/
def eightDigits (x : ℚ) : Text :=
  let scaled : ℚ := |x| * 10 ^ 8
  let low := ⌊scaled⌋₊
  let n := if 1 / 2 < scaled - low ∨ scaled - low = 1 / 2 ∧ low % 2 = 1 then low + 1 else low
  Nat.toDigits 10 (n / 10 ^ 8) ++ '.' :: pad 8 (n % 10 ^ 8)

/-- `format_calc` -/
def formatCalc : Binary64 → Text
  | .finite x =>
    if |x - roundAway x| < billionth ∧ |x| < 10 ^ 15 then
      (if roundAway x < 0 then ['-'] else []) ++ Nat.toDigits 10 (roundAway x).natAbs
    else
      (((if x < 0 then ['-'] else []) ++ eightDigits x).rdropWhile (· = '0')).rdropWhile (· = '.')
  | _ => []

/-- The edit that gives a cell a number. -/
def numberEdits (cell : SheetCellRef) (number : Binary64) : Option (List Edit) :=
  let rendered := formatCalc number
  if rendered = [] then none
  else
    match cell.valueSpan, cell.insertAt with
    | some (start, finish), _ => some [⟨start, finish, rendered⟩]
    | none, some pos => some [⟨pos, pos, "<v>".toList ++ rendered ++ "</v>".toList⟩]
    | none, none => none

def GridCell.edits (cell : SheetCellRef) : GridCell → Option (List Edit)
  | .num number => numberEdits cell number
  | .text part => textEdits cell part

/-- The edits for one value at an address. -/
def editsAt (cells : List SheetCellRef) (write : Text × GridCell) : Option (List Edit) :=
  (findCell cells write.1).bind fun cell => write.2.edits cell

/-- `place_mixed_grid` -/
def placeMixedGrid (origin : Text) (columns : ℕ) (grid : List GridCell)
    (cells : List SheetCellRef) (taken : List Text) :
    Option (List (Text × GridCell) × List (List Edit)) :=
  if columns = 0 ∨ grid = [] ∨ ¬columns ∣ grid.length then none
  else do
    let writes ← placeFrom (place cells taken origin columns) true 0 grid
    let edits ← writes.mapM (editsAt cells)
    some (writes, edits)

/-! ### A pass -/

/-- What happens at a cell: nothing, a spill with what it writes, or one value of its own. -/
inductive Outcome
  | nothing
  | spill (writes : List (Text × GridCell)) (edits : List Edit)
  | value (edits : List Edit)

/-- The addresses that a spill writes. -/
def Outcome.addresses : Outcome → List Text
  | .spill writes _ => writes.map Prod.fst
  | _ => []

variable (formulas : Formulas)

/-- The spill of a formula with numbers, or its one value. -/
def numberOutcome (cells : List SheetCellRef) (spilled : List Text) (cell : SheetCellRef)
    (formula : Text) : Outcome :=
  match formulas.trySpill cell formula with
  | some spill =>
    match placeSpill cell.address spill cells spilled with
    | some numbers =>
      let writes := numbers.map fun write => (write.1, GridCell.num write.2)
      .spill writes (writes.flatMap fun write => (editsAt cells write).getD [])
    | none => .nothing
  | none =>
    match formulas.eval cell formula with
    | some value => .value ((value.edits cell).getD [])
    | none => .nothing

/-- The body of the loop in `recalculate_sheet`. -/
def outcome (cells : List SheetCellRef) (spilled : List Text) (cell : SheetCellRef) : Outcome :=
  match cell.formula, cell.textCell with
  | some formula, false =>
    match formulas.textSpillCall cell formula with
    | .invalid => .nothing
    | .grid columns grid _ =>
      match placeMixedGrid cell.address columns grid cells spilled with
      | some (writes, edits) => .spill writes edits.flatten
      | none => .nothing
    | .parts parts =>
      match placeTextColumn cell.address parts cells spilled with
      | some texts =>
        let writes := texts.map fun write => (write.1, GridCell.text write.2)
        match writes.mapM (editsAt cells) with
        | some edits => .spill writes edits.flatten
        | none => .nothing
      | none => .nothing
    | .absent => numberOutcome formulas cells spilled cell formula
  | _, _ => .nothing

/-- The cells from some on are met, with what has been spilled before. -/
def passFrom (cells : List SheetCellRef) : List Text → List SheetCellRef → List Outcome
  | _, [] => []
  | spilled, cell :: rest =>
    let result := outcome formulas cells spilled cell
    result :: passFrom cells (spilled ++ result.addresses) rest

/-- One pass of `recalculate_sheet`. -/
def pass (sheet : SheetCells) : List Outcome := passFrom formulas sheet.cells [] sheet.cells

/-! ### What is placed -/

section Placing

variable {α : Type*}

end Placing

lemma splitAddress_offsetAddress {origin a : Text} {row col c r : ℕ}
    (h : offsetAddress origin row col = some a) (horigin : splitAddress origin = some (c, r)) :
    splitAddress a = some (c + col, r + row) := by
  unfold offsetAddress at h
  split_ifs at h with hzero
  · obtain rfl := Option.some.inj h
    rw [hzero.1, hzero.2]
    exact horigin
  · obtain ⟨c', r', hsplit, hc, hr, rfl⟩ := shiftAddress_eq_some h
    rw [horigin] at hsplit
    cases hsplit
    exact splitAddress_cellName hc hr

/-- Different offsets have different addresses. -/
lemma offsetAddress_injective {origin a : Text} {row col row' col' : ℕ}
    (h : offsetAddress origin row col = some a) (h' : offsetAddress origin row' col' = some a) :
    row = row' ∧ col = col' := by
  cases horigin : splitAddress origin with
  | some cell =>
    have hsplit := splitAddress_offsetAddress h horigin
    rw [splitAddress_offsetAddress h' horigin] at hsplit
    obtain ⟨hcol, hrow⟩ := Prod.mk.inj (Option.some.inj hsplit)
    omega
  | none =>
    have hzero {row col : ℕ} (h : offsetAddress origin row col = some a) :
        row = 0 ∧ col = 0 := by
      unfold offsetAddress at h
      split_ifs at h with hzero
      · exact hzero
      · obtain ⟨c, r, hsplit, -⟩ := shiftAddress_eq_some h
        rw [horigin] at hsplit
        cases hsplit
    rw [(hzero h).1, (hzero h).2, (hzero h').1, (hzero h').2]
    exact ⟨rfl, rfl⟩

/-- Values stand at their offsets from the origin, in cells that were free. -/
structure Placed (cells : List SheetCellRef) (taken : List Text) (origin : Text) (columns : ℕ)
    (writes : List (Text × GridCell)) : Prop where
  offset : ∀ i write, writes[i]? = some write →
    offsetAddress origin (i / columns) (i % columns) = some write.1
  free : ∀ write ∈ writes, write.1 = origin ∨ blocked cells taken write.1 = false

lemma Placed.nodup {cells : List SheetCellRef} {taken : List Text} {origin : Text} {columns : ℕ}
    {writes : List (Text × GridCell)} (h : Placed cells taken origin columns writes) :
    (writes.map Prod.fst).Nodup := by
  rw [List.nodup_iff_getElem?_ne_getElem?]
  intro i j hij hj heq
  rw [List.length_map] at hj
  have hi : i < writes.length := hij.trans hj
  simp only [List.getElem?_map, List.getElem?_eq_getElem hi, List.getElem?_eq_getElem hj,
    Option.map_some, Option.some.injEq] at heq
  have hfirst := h.offset i _ (List.getElem?_eq_getElem hi)
  rw [heq] at hfirst
  obtain ⟨hrow, hcol⟩ :=
    offsetAddress_injective hfirst (h.offset j _ (List.getElem?_eq_getElem hj))
  have hsame : i = j := by rw [← Nat.div_add_mod i columns, hrow, hcol, Nat.div_add_mod]
  omega

lemma GridCell.edits_ne_nil {cell : SheetCellRef} {value : GridCell} {edits : List Edit}
    (h : value.edits cell = some edits) : edits ≠ [] := by
  rintro rfl
  cases value with
  | num number =>
    simp only [GridCell.edits, numberEdits] at h
    split at h
    · cases h
    · split at h <;> cases h
  | text part =>
    simp only [GridCell.edits, textEdits, Option.bind_eq_bind] at h
    obtain ⟨tag, -, h⟩ := Option.bind_eq_some_iff.mp h
    split at h <;> cases h

/-- The values that a formula asks to spill, and how. -/
structure Request where
  values : List GridCell
  columns : ℕ
  allOrNothing : Bool

/-- What the formula of a cell asks for, if it is one that spills and the values have a shape. -/
def Formulas.request (cell : SheetCellRef) (formula : Text) : Option Request :=
  match formulas.textSpillCall cell formula with
  | .invalid => none
  | .grid columns grid _ =>
    if columns = 0 ∨ grid = [] ∨ ¬columns ∣ grid.length then none
    else some ⟨grid, columns, true⟩
  | .parts parts =>
    if parts = [] ∨ 256 < parts.length then none else some ⟨parts.map .text, 1, true⟩
  | .absent => (formulas.trySpill cell formula).bind fun spill =>
    if spill.columns = 0 then none
    else some ⟨spill.values.map .num, spill.columns, spill.allOrNothing⟩

/-- A spill writes some first values of a request, or all of them, in free cells, and the edits are
those for these values. -/
structure Writes (cells : List SheetCellRef) (taken : List Text) (cell : SheetCellRef)
    (request : Request) (writes : List (Text × GridCell)) (edits : List Edit) : Prop where
  values : writes.map Prod.snd <+: request.values
  all : request.allOrNothing = true → writes.map Prod.snd = request.values
  place : ∀ i write, writes[i]? = some write →
    place cells taken cell.address request.columns i = some write.1
  placed : Placed cells taken cell.address request.columns writes
  edited : ∀ write ∈ writes, (editsAt cells write).isSome
  edits : edits = writes.flatMap fun write => (editsAt cells write).getD []

variable {formulas}

/-- A value of a request finds a place, and the cell there takes it. -/
def Fits (cells : List SheetCellRef) (taken : List Text) (origin : Text) (request : Request)
    (i : ℕ) : Prop :=
  ∃ address value, request.values[i]? = some value ∧
    place cells taken origin request.columns i = some address ∧
    (editsAt cells (address, value)).isSome

/-- A request gets as far as a value: those before it find places, or all if it is all or
nothing. -/
def Reaches (cells : List SheetCellRef) (taken : List Text) (origin : Text) (request : Request)
    (i : ℕ) : Prop :=
  i < request.values.length ∧ ∀ j < request.values.length, j ≤ i ∨ request.allOrNothing = true →
    Fits cells taken origin request j

/-- The values of a spill stand in their cells: at their offsets, and in no other cell with a
formula or text. -/
structure Spilled (cells : List SheetCellRef) (cell : SheetCellRef) (request : Request)
    (writes : List (Text × GridCell)) (edits : List Edit) : Prop where
  values : writes.map Prod.snd <+: request.values
  all : request.allOrNothing = true → writes.map Prod.snd = request.values
  address : ∀ i write, writes[i]? = some write →
    offsetAddress cell.address (i / request.columns) (i % request.columns) = some write.1
  offset : ∀ col row, splitAddress cell.address = some (col, row) →
    ∀ i write, writes[i]? = some write →
      splitAddress write.1 = some (col + i % request.columns, row + i / request.columns)
  target : ∀ write ∈ writes, ∃ target, findCell cells write.1 = some target ∧
    (target = cell ∨ ¬target.Holds) ∧
    ∃ piece, write.2.edits target = some piece ∧ piece ≠ [] ∧ piece ⊆ edits
  edits : edits = writes.flatMap fun write => (editsAt cells write).getD []

lemma Writes.fits {cells : List SheetCellRef} {taken : List Text} {cell : SheetCellRef}
    {request : Request} {writes : List (Text × GridCell)} {edits : List Edit}
    (h : Writes cells taken cell request writes edits) {i : ℕ} (hi : i < writes.length) :
    Fits cells taken cell.address request i := by
  obtain ⟨rest, hrest⟩ := h.values
  refine ⟨writes[i].1, writes[i].2, ?_, h.place i _ (List.getElem?_eq_getElem hi),
    h.edited _ (List.getElem_mem hi)⟩
  rw [← hrest, List.getElem?_append_left (by simpa using hi), List.getElem?_map,
    List.getElem?_eq_getElem hi, Option.map_some]

lemma Writes.spilled {cells : List SheetCellRef} {taken : List Text} {cell : SheetCellRef}
    {request : Request} {writes : List (Text × GridCell)} {edits : List Edit}
    (h : Writes cells taken cell request writes edits)
    (htargets : ∀ write ∈ writes, ∀ target, findCell cells write.1 = some target →
      target = cell ∨ ¬target.Holds) :
    Spilled cells cell request writes edits where
  values := h.values
  all := h.all
  address := h.placed.offset
  offset := fun _ _ horigin i write hi =>
    splitAddress_offsetAddress (h.placed.offset i write hi) horigin
  target := by
    intro write hwrite
    obtain ⟨piece, hpiece⟩ := Option.isSome_iff_exists.mp (h.edited write hwrite)
    obtain ⟨target, htarget, hedits⟩ := Option.bind_eq_some_iff.mp hpiece
    refine ⟨target, htarget, htargets write hwrite target htarget, piece, hedits,
      GridCell.edits_ne_nil hedits, ?_⟩
    intro edit hedit
    rw [h.edits, List.mem_flatMap]
    exact ⟨write, hwrite, by rwa [hpiece]⟩
  edits := h.edits

/-- What the formulas of this sheet come to. -/
def sorted : Formulas where
  textSpillCall _ _ := .absent
  trySpill _ formula :=
    if formula = "SORT(B1:B2)".toList then
      some ⟨[.finite 1, .finite 2], 1, true, by simp, by decide⟩
    else none
  eval _ _ := none

end Orchid.Sheet
