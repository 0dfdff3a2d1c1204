import Mathlib.Data.Int.Order.Basic
import Orchid.Base.Machine

/-!
# Shared formulas

The formula of a cell is that of its master, moved; `orchid-viewers/src/office/calc.rs`. A text is
the list of its characters, and a place in it is what stands from there on.
-/

namespace Orchid.Sheet

/-! ### Columns -/

/-- One letter of a column. -/
def columnStep (value : ℕ) (ch : Char) : Option ℕ :=
  if ch.isAlpha then
    let next := value * 26 + (ch.toUpper.toNat - 65 + 1)
    if next < 2 ^ 32 then some next else none
  else none

/-- `column_index` -/
def columnIndex (letters : Text) : Option ℕ := letters.foldlM columnStep 0

/-- The letters of a column, by at most so many steps. -/
def columnLetters : ℕ → ℕ → Text
  | 0, _ => []
  | steps + 1, index =>
    if index = 0 then []
    else columnLetters steps ((index - 1) / 26) ++ [Char.ofNat (65 + (index - 1) % 26)]

/-- `column_name` -/
def columnName (index : ℕ) : Text := columnLetters index index

/-! ### References -/

/-- `CellRefParts`, without its end. -/
structure CellRefParts where
  colAbs : Bool
  col : ℕ
  rowAbs : Bool
  row : ℕ
  deriving DecidableEq

/-- The characters that satisfy `p`, at most so many, and what follows. -/
def takeAtMost (p : Char → Bool) : ℕ → Text → Text × Text
  | 0, s => ([], s)
  | _ + 1, [] => ([], [])
  | n + 1, c :: s => if p c then (c :: (takeAtMost p n s).1, (takeAtMost p n s).2) else ([], c :: s)

/-- A dollar sign, if there is one, and what follows. -/
def dollar : Text → Bool × Text
  | [] => (false, [])
  | c :: s => if c = '$' then (true, s) else (false, c :: s)

/-- `parse_cell_ref`, with what follows the reference. -/
def parseCellRef (s : Text) : Option (CellRefParts × Text) :=
  let colDollar := dollar s
  let letters := takeAtMost Char.isAlpha 3 colDollar.2
  if letters.1 = [] ∨ letters.2.head?.any Char.isAlpha then none
  else
    let rowDollar := dollar letters.2
    let digits := takeAtMost Char.isDigit 7 rowDollar.2
    if digits.1 = [] ∨ digits.2.head?.any Char.isAlphanum then none
    else
      let row := Nat.ofDigitChars 10 digits.1 0
      if row = 0 then none
      else
        (columnIndex letters.1).map fun col =>
          ({ colAbs := colDollar.1, col, rowAbs := rowDollar.1, row }, digits.2)

/-- A column or a row, moved unless it is absolute, between one and `max`. -/
def moved (abs : Bool) (n : ℕ) (d : ℤ) (max : ℕ) : Option ℕ :=
  if abs then some n
  else if 1 ≤ (n : ℤ) + d ∧ (n : ℤ) + d ≤ max then some ((n : ℤ) + d).toNat else none

def maxColumn : ℕ := 16384

def maxRow : ℕ := 9999999

/-- A dollar sign in front of what is absolute. -/
def dollarText (abs : Bool) : Text := if abs then ['$'] else []

/-- The text of a reference. -/
def refText (colAbs : Bool) (col : ℕ) (rowAbs : Bool) (row : ℕ) : Text :=
  dollarText colAbs ++ columnName col ++ (dollarText rowAbs ++ Nat.toDigits 10 row)

/-- `shift_cell_ref` -/
def shiftCellRef (refer : CellRefParts) (dcol drow : ℤ) : Option Text := do
  let col ← moved refer.colAbs refer.col dcol maxColumn
  let row ← moved refer.rowAbs refer.row drow maxRow
  some (refText refer.colAbs col refer.rowAbs row)

/-! ### The scanner -/

/-- The characters of a sheet name without quotes. -/
def sheetChar (c : Char) : Bool := c.isAlphanum || c == '_' || c == '.'

/-- What such a name can begin with. -/
def sheetStart (c : Char) : Bool := c.isAlpha || c == '_'

/-- A sheet name with its `!`, if one stands here, and what follows. -/
def sheetPart (s : Text) : Text × Text :=
  if s.head?.any sheetStart then
    match s.dropWhile sheetChar with
    | '!' :: rest => (s.takeWhile sheetChar ++ ['!'], rest)
    | _ => ([], s)
  else ([], s)

/-- `shift_ref_at`: what follows the reference that stands here, and the reference moved. -/
def shiftRefAt (s : Text) (dcol drow : ℤ) : Option (Text × Option Text) :=
  let sheet := sheetPart s
  (parseCellRef sheet.2).map fun r =>
    (r.2, (shiftCellRef r.1 dcol drow).map fun cell => sheet.1 ++ cell)

/-- What stands in quotes up to the closing one, which is doubled inside, and what follows. -/
def takeQuoted (q : Char) : Text → Text × Text
  | [] => ([], [])
  | c :: s =>
    if c = q then
      match s with
      | d :: s' =>
        if d = q then (c :: d :: (takeQuoted q s').1, (takeQuoted q s').2) else ([c], d :: s')
      | [] => ([c], [])
    else (c :: (takeQuoted q s).1, (takeQuoted q s).2)

/-- The loop of `shift_formula`, by at most so many steps. -/
def shiftLoop (dcol drow : ℤ) : ℕ → Text → Option Text
  | 0, _ => some []
  | _ + 1, [] => some []
  | steps + 1, c :: s =>
    if c = '"' ∨ c = '\'' then
      (shiftLoop dcol drow steps (takeQuoted c s).2).map fun out => c :: (takeQuoted c s).1 ++ out
    else
      match shiftRefAt (c :: s) dcol drow with
      | some (rest, shifted) => do
        let shifted ← shifted
        let out ← shiftLoop dcol drow steps rest
        some (shifted ++ out)
      | none => (shiftLoop dcol drow steps s).map fun out => c :: out

/-- `shift_formula` -/
def shiftFormula (formula : Text) (dcol drow : ℤ) : Option Text :=
  if dcol = 0 ∧ drow = 0 then some formula else shiftLoop dcol drow formula.length formula

end Orchid.Sheet
