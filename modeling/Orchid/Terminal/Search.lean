import Orchid.Lib.Occurrences
import Orchid.Terminal.Selection

/-!
# Searching the scrollback

`search_in_scrollback` of `emulator/mod.rs`. `str::to_lowercase` is a parameter.
-/

namespace Orchid.Terminal

open Lib (occurrences utf8Bytes utf8Bytes_eq_flatMap utf8Char selfSync_utf8Char)
open String (utf8Len)

/-! ### The search -/

/-- `SearchMatch` -/
structure SearchMatch where
  line : ℤ
  colStart : U16
  colEnd : U16
  deriving DecidableEq

/-- `as u16` -/
def asU16 (n : ℕ) : U16 := Fin.ofNat (2 ^ 16) n

namespace EmulatorState

end EmulatorState

/-! ### What should be found -/

/-- The characters of the cells. -/
def rowChars (line : Line) : Text := line.map Cell.ch

/-- How many of the first cells spell the query. -/
def spelling (fold : Text → Text) (query row : Text) : Option ℕ :=
  (List.range (row.length + 1)).find? fun n => fold (row.take n) = fold query

/-- The places from left to right, without overlap, at which cells spell the query, each with how
many do; the first `skip` cells are passed. -/
def spellings (fold : Text → Text) (query : Text) : ℕ → Text → List (ℕ × ℕ)
  | _, [] => []
  | skip + 1, _ :: row => (spellings fold query skip row).map fun p => (p.1 + 1, p.2)
  | 0, c :: row =>
    match spelling fold query (c :: row) with
    | some n => (0, n) :: (spellings fold query (n - 1) row).map fun p => (p.1 + 1, p.2)
    | none => (spellings fold query 0 row).map fun p => (p.1 + 1, p.2)

/-- The matches of a line, with the columns of their cells. -/
def expected (fold : Text → Text) (query : Text) (p : ℤ × Line) : List (ℤ × ℕ × ℕ) :=
  (spellings fold query 0 (rowChars p.2)).map fun q => (p.1, q.1, q.1 + q.2)

/-- A match with its columns as numbers. -/
def SearchMatch.cells (m : SearchMatch) : ℤ × ℕ × ℕ := (m.line, m.colStart.val, m.colEnd.val)

/-- The occurrences of the query in the folded text of a line and the places at which its cells
spell the query go together one by one, and there are as many bytes in front of an occurrence, and
up to its end, as cells in front of the place and up to its end, but for multiples of `2 ^ 16`. -/
def Aligned (fold : Text → Text) (query : Text) (line : Line) : Prop :=
  let text := fold (cellsToString line)
  List.Forall₂ (fun p q => utf8Len (text.take p) % 2 ^ 16 = q.1 ∧
      utf8Len (text.take (p + (fold query).length)) % 2 ^ 16 = q.1 + q.2)
    (occurrences (fold query) 0 text) (spellings fold query 0 (rowChars line))

/-- Folding a part of a row gives the part of the folded row. -/
structure FoldsCells (fold : Text → Text) (row : Text) : Prop where
  length : (fold row).length = row.length
  part : ∀ a n, fold ((row.drop a).take n) = ((fold row).drop a).take n

variable {fold : Text → Text}

lemma FoldsCells.tail {c : Char} {row : Text} (h : FoldsCells fold (c :: row)) :
    fold row = (fold (c :: row)).drop 1 ∧ FoldsCells fold row := by
  have htail : fold row = (fold (c :: row)).drop 1 := by
    have := h.part 1 row.length
    rw [List.drop_one, List.tail_cons, List.take_length, List.take_of_length_le] at this
    · exact this
    · rw [List.length_drop, h.length, List.length_cons]
      omega
  refine ⟨htail, ⟨by rw [htail, List.length_drop, h.length, List.length_cons]; omega, ?_⟩⟩
  intro a n
  rw [htail, List.drop_drop, Nat.add_comm]
  exact h.part (a + 1) n

namespace EmulatorState

end EmulatorState

end Orchid.Terminal
