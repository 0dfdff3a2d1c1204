import Orchid.Document.Cursor
import Mathlib.Data.List.Lex
import Mathlib.Order.Compare

/-!
# The order of cursors

`cmpCursor` against the order of the document. Document order compares the block, the table cell,
the paragraph, the image behind it, the run and the byte, one after the other. `cmpCursor` tests
row and column together, and run and byte together, and takes the first "less" it sees.
-/

namespace Orchid.Document

open Lib

/-! ### Positions of a document -/

/-- Run and byte of a cursor lie in a paragraph; a paragraph without runs has one position. -/
def Paragraph.HasPosition (p : Paragraph) (run byte : ℕ) : Prop :=
  (p.runs = [] ∧ run = 0 ∧ byte = 0) ∨ ∃ r ∈ p.runs[run]?, IsCharBoundary r.text byte

/-- The position lies in a cell: in a paragraph, or on an image. -/
def TableCell.HasPosition (cell : TableCell) (path : CellPath) (run byte : ℕ) : Prop :=
  match path.imageIdx with
  | none => ∃ p ∈ cell.paragraphs[path.paraIdx]?, p.HasPosition run byte
  | some i => ∃ img ∈ cell.images[i]?, img.afterParagraph = path.paraIdx ∧ run = 0 ∧ byte = 0

/-- The position lies in a block. -/
def Block.HasPosition (block : Block) (cell : Option CellPath) (run byte : ℕ) : Prop :=
  match block with
  | .paragraph p => cell = none ∧ p.HasPosition run byte
  | .table t => ∃ path ∈ cell, ∃ c ∈ t.cellAt path.row path.col, c.HasPosition path run byte
  | .image _ => cell = none ∧ run = 0 ∧ byte = 0

/-- A cursor that addresses a position of the document. -/
def Position (d : Document) : Type :=
  { c : Cursor // ∃ block ∈ d.blocks[c.blockIdx]?, block.HasPosition c.cell c.runIdx c.byteOffset }

/-! ### Document order -/

/-- Row, column, paragraph and image of a cell path; a paragraph comes before its images. -/
def CellPath.coordinates (path : CellPath) : List ℕ :=
  [path.row, path.col, path.paraIdx, (path.imageIdx.map Nat.succ).getD 0]

/-- Block, cell path, run and byte of a cursor. -/
def Cursor.coordinates (c : Cursor) : List ℕ :=
  c.blockIdx ::
    ((c.cell.map fun path => 1 :: path.coordinates).getD [0] ++ [c.runIdx, c.byteOffset])

/-- The claim about `cmpCursor` on a set of positions: it compares their coordinates from left to
right, and so is a total order, by which `normalized` sorts the two ends of a selection. -/
structure OrderedByDocument {d : Document} (S : Set d.Position) : Prop where
  agrees : ∀ a ∈ S, ∀ b ∈ S, (cmpCursor a.1 b.1).Compares a.1.coordinates b.1.coordinates
  eq_of_eq : ∀ a ∈ S, ∀ b ∈ S, cmpCursor a.1 b.1 = .eq → a = b
  swap : ∀ a ∈ S, ∀ b ∈ S, cmpCursor b.1 a.1 = (cmpCursor a.1 b.1).swap
  trans : ∀ a ∈ S, ∀ b ∈ S, ∀ c ∈ S,
    cmpCursor a.1 b.1 ≠ .gt → cmpCursor b.1 c.1 ≠ .gt → cmpCursor a.1 c.1 ≠ .gt
  normalized_le : ∀ a ∈ S, ∀ b ∈ S,
    cmpCursor (Selection.normalized ⟨a.1, b.1⟩).1 (Selection.normalized ⟨a.1, b.1⟩).2 ≠ .gt
  normalized_swap : ∀ a ∈ S, ∀ b ∈ S,
    Selection.normalized ⟨b.1, a.1⟩ = Selection.normalized ⟨a.1, b.1⟩

/-- The second position is later on a level and earlier on the next one: in a lower row and a
column to the left, or in a later run of the same paragraph and at a smaller byte offset. -/
def Cursor.Crosses (a b : Cursor) : Prop :=
  a.blockIdx = b.blockIdx ∧
    ((∃ p ∈ a.cell, ∃ q ∈ b.cell, p.row < q.row ∧ q.col < p.col) ∨
      (a.cell = b.cell ∧ a.runIdx < b.runIdx ∧ b.byteOffset < a.byteOffset))

/-! ### Comparing one level after the other -/

lemma compares_cons {x y : ℕ} {xs ys : List ℕ} {o : Ordering} (h : o.Compares xs ys) :
    ((compare x y).then o).Compares (x :: xs) (y :: ys) := by
  rcases lt_trichotomy x y with hlt | rfl | hgt
  · rw [Nat.compare_eq_lt.2 hlt]
    exact List.Lex.rel hlt
  · rw [Nat.compare_eq_eq.2 rfl]
    cases o with
    | lt => exact List.Lex.cons h
    | eq => exact congrArg (x :: ·) h
    | gt => exact List.Lex.cons h
  · rw [Nat.compare_eq_gt.2 hgt]
    exact List.Lex.rel hgt

lemma compares_same {x : ℕ} {xs ys : List ℕ} {o : Ordering} (h : o.Compares xs ys) :
    o.Compares (x :: xs) (x :: ys) := by
  simpa [Nat.compare_eq_eq.2 rfl] using compares_cons (x := x) (y := x) h

lemma then_congr {o u v : Ordering} (h : o = .eq → u = v) : o.then u = o.then v := by
  cases o with
  | eq => exact h rfl
  | lt => rfl
  | gt => rfl

/-- Testing two levels together is comparing one after the other, unless the first one is greater
and the second one less. -/
lemma less_on_either (x x' y y' : ℕ) (o : Ordering) (h : ¬ (y < x ∧ x' < y')) :
    (if x < y ∨ x' < y' then .lt else if x > y ∨ x' > y' then .gt else o) =
      (compare x y).then ((compare x' y').then o) := by
  rcases lt_trichotomy x y with hlt | rfl | hgt
  · rw [Nat.compare_eq_lt.2 hlt, if_pos (Or.inl hlt)]
    rfl
  · rw [Nat.compare_eq_eq.2 rfl]
    rcases lt_trichotomy x' y' with hlt' | rfl | hgt'
    · rw [Nat.compare_eq_lt.2 hlt', if_pos (Or.inr hlt')]
      rfl
    · rw [Nat.compare_eq_eq.2 rfl]
      simp
    · rw [Nat.compare_eq_gt.2 hgt', if_neg (by omega), if_pos (Or.inr hgt')]
      rfl
  · rw [Nat.compare_eq_gt.2 hgt, if_neg (by omega), if_pos (Or.inl hgt)]
    rfl

/-! ### Cell paths -/

lemma cmpCellPath_eq {a b : CellPath} (h : ¬ (b.row < a.row ∧ a.col < b.col)) :
    cmpCellPath a b = (compare a.row b.row).then ((compare a.col b.col).then
      ((compare a.paraIdx b.paraIdx).then
        (compare ((a.imageIdx.map Nat.succ).getD 0) ((b.imageIdx.map Nat.succ).getD 0)))) := by
  rw [← less_on_either _ _ _ _ _ h, cmpCellPath]
  congr 2
  obtain ⟨ra, ca, pa, ia⟩ := a
  obtain ⟨rb, cb, pb, ib⟩ := b
  cases ia with
  | none =>
    cases ib with
    | none => simp
    | some j => 
      rcases lt_trichotomy pa pb with hlt | rfl | hgt
      · simp [Nat.compare_eq_lt.2 hlt, hlt.not_gt]
      · simp [Nat.compare_eq_lt.2 j.succ_pos]
      · simp [Nat.compare_eq_gt.2 hgt, hgt]
  | some i =>
    cases ib with
    | none =>
      rcases lt_trichotomy pa pb with hlt | rfl | hgt
      · simp [Nat.compare_eq_lt.2 hlt, hlt]
      · simp [Nat.compare_eq_gt.2 i.succ_pos]
      · simp [Nat.compare_eq_gt.2 hgt, hgt.not_gt]
    | some j =>
      have hsucc : compare (i + 1) (j + 1) = compare i j := by
        simp [Nat.compare_eq_ite_lt]
      simp only [Option.map_some, Option.getD_some, Nat.succ_eq_add_one, hsucc]
      cases compare pa pb <;> rfl

lemma CellPath.eq_of_coordinates {a b : CellPath} (h : a.coordinates = b.coordinates) : a = b := by
  obtain ⟨ra, ca, pa, ia⟩ := a
  obtain ⟨rb, cb, pb, ib⟩ := b
  cases ia <;> cases ib <;> simp_all [CellPath.coordinates]

lemma CellPath.eq_of_cmp {a b : CellPath} (h : ¬ (b.row < a.row ∧ a.col < b.col))
    (heq : cmpCellPath a b = .eq) : a = b := by
  apply CellPath.eq_of_coordinates
  rw [cmpCellPath_eq h] at heq
  simp only [Ordering.then_eq_eq, Nat.compare_eq_eq] at heq
  obtain ⟨hr, hc, hp, hi⟩ := heq
  rw [CellPath.coordinates, CellPath.coordinates, hr, hc, hp, hi]

/-! ### Cursors -/

/-- The last levels of `cmpCursor`: run and byte in one paragraph. -/
def cmpInParagraph (a b : Cursor) : Ordering :=
  if a.runIdx < b.runIdx ∨ a.byteOffset < b.byteOffset then .lt
  else if a.runIdx > b.runIdx ∨ a.byteOffset > b.byteOffset then .gt
  else .eq

lemma cmpInParagraph_eq {a b : Cursor} (h : ¬ (b.runIdx < a.runIdx ∧ a.byteOffset < b.byteOffset)) :
    cmpInParagraph a b = (compare a.runIdx b.runIdx).then
      ((compare a.byteOffset b.byteOffset).then .eq) :=
  less_on_either _ _ _ _ _ h

variable {d : Document}

/-- A position on an image has no run and no byte. -/
lemma Position.on_image (a : d.Position) {path : CellPath} (hcell : a.1.cell = some path)
    (himg : path.imageIdx.isSome) : a.1.runIdx = 0 ∧ a.1.byteOffset = 0 := by
  obtain ⟨⟨bi, cell, run, byte⟩, block, hblock, hpos⟩ := a
  obtain rfl : cell = some path := hcell
  obtain ⟨i, hi⟩ := Option.isSome_iff_exists.1 himg
  cases block with
  | paragraph p => simp [Block.HasPosition] at hpos
  | image img => simp [Block.HasPosition] at hpos
  | table t =>
    obtain ⟨_, hpath, c, -, hc⟩ := hpos
    obtain rfl := Option.some.inj hpath
    simp only [TableCell.HasPosition, hi] at hc
    obtain ⟨img, -, -, hrun, hbyte⟩ := hc
    exact ⟨hrun, hbyte⟩

lemma cmpCursor_of_block {a b : Cursor} (h : a.blockIdx ≠ b.blockIdx) :
    cmpCursor a b = compare a.blockIdx b.blockIdx := by
  rw [cmpCursor]
  rcases Nat.lt_or_gt_of_ne h with hlt | hgt
  · rw [Nat.compare_eq_lt.2 hlt]
  · rw [Nat.compare_eq_gt.2 hgt]

lemma cmpCursor_body {a b : Cursor} (h : a.blockIdx = b.blockIdx) (ha : a.cell = none)
    (hb : b.cell = none) : cmpCursor a b = cmpInParagraph a b := by
  rw [cmpCursor, h, Nat.compare_eq_eq.2 rfl, ha, hb]
  rfl

lemma cmpCursor_cell {a b : d.Position} (h : a.1.blockIdx = b.1.blockIdx) {p q : CellPath}
    (ha : a.1.cell = some p) (hb : b.1.cell = some q) (hpq : ¬ (q.row < p.row ∧ p.col < q.col)) :
    cmpCursor a.1 b.1 = (cmpCellPath p q).then (cmpInParagraph a.1 b.1) := by
  rw [cmpCursor, h, Nat.compare_eq_eq.2 rfl, ha, hb]
  cases hcmp : cmpCellPath p q with
  | lt => simp [hcmp]
  | gt => simp [hcmp]
  | eq =>
    obtain rfl := CellPath.eq_of_cmp hpq hcmp
    by_cases himg : p.imageIdx.isSome
    · obtain ⟨har, hab⟩ := a.on_image ha himg
      obtain ⟨hbr, hbb⟩ := b.on_image hb himg
      simp [hcmp, himg, cmpInParagraph, har, hab, hbr, hbb]
    · simp [hcmp, himg, cmpInParagraph]

/-- Without a crossing, `cmpCursor` compares the coordinates. -/
lemma cmpCursor_compares {a b : d.Position} (h : ¬ b.1.Crosses a.1) :
    (cmpCursor a.1 b.1).Compares a.1.coordinates b.1.coordinates := by
  by_cases hblock : a.1.blockIdx = b.1.blockIdx
  · cases ha : a.1.cell with
    | none =>
      cases hb : b.1.cell with
      | none =>
        have hin : ¬ (b.1.runIdx < a.1.runIdx ∧ a.1.byteOffset < b.1.byteOffset) := fun hcross =>
          h ⟨hblock.symm, Or.inr ⟨hb.trans ha.symm, hcross⟩⟩
        rw [cmpCursor_body hblock ha hb, cmpInParagraph_eq hin]
        simp only [Cursor.coordinates, ha, hb, hblock, Option.map_none, Option.getD_none]
        exact compares_same (compares_same (compares_cons (compares_cons rfl)))
      | some q => 
        simp only [cmpCursor, Cursor.coordinates, hblock, Nat.compare_eq_eq.2, ha, hb]
        exact List.Lex.cons (List.Lex.rel Nat.zero_lt_one)
    | some p =>
      cases hb : b.1.cell with
      | none =>
        simp only [cmpCursor, Cursor.coordinates, hblock, Nat.compare_eq_eq.2, ha, hb]
        exact List.Lex.cons (List.Lex.rel Nat.zero_lt_one)
      | some q =>
        have hpath : ¬ (q.row < p.row ∧ p.col < q.col) := fun hcross =>
          h ⟨hblock.symm, Or.inl ⟨q, hb, p, ha, hcross⟩⟩
        rw [cmpCursor_cell hblock ha hb hpath]
        have hin : (cmpCellPath p q).then (cmpInParagraph a.1 b.1) =
            (cmpCellPath p q).then ((compare a.1.runIdx b.1.runIdx).then
              ((compare a.1.byteOffset b.1.byteOffset).then .eq)) := by
          refine then_congr fun heq => cmpInParagraph_eq fun hcross =>
            h ⟨hblock.symm, Or.inr ⟨?_, hcross⟩⟩
          rw [ha, hb, CellPath.eq_of_cmp hpath heq]
        rw [hin, cmpCellPath_eq hpath]
        simp only [Ordering.then_assoc, Cursor.coordinates, CellPath.coordinates, ha, hb, hblock,
          Option.map_some, Option.getD_some]
        exact compares_same (compares_same (compares_cons (compares_cons (compares_cons
          (compares_cons (compares_cons (compares_cons rfl)))))))
  · rw [cmpCursor_of_block hblock]
    rcases Nat.lt_or_gt_of_ne hblock with hlt | hgt
    · rw [Nat.compare_eq_lt.2 hlt]
      exact List.Lex.rel hlt
    · rw [Nat.compare_eq_gt.2 hgt]
      exact List.Lex.rel hgt

lemma Cursor.eq_of_coordinates {a b : Cursor} (h : a.coordinates = b.coordinates) : a = b := by
  obtain ⟨bi, cell, run, byte⟩ := a
  obtain ⟨bi', cell', run', byte'⟩ := b
  cases cell with
  | none => cases cell' <;> simp_all [Cursor.coordinates, CellPath.coordinates]
  | some p =>
    cases cell' with
    | none => simp [Cursor.coordinates, CellPath.coordinates] at h
    | some q =>
      have hpq : p.coordinates = q.coordinates := by
        simp_all [Cursor.coordinates, CellPath.coordinates]
      obtain rfl := CellPath.eq_of_coordinates hpq
      simp_all [Cursor.coordinates, CellPath.coordinates]

/-! ### Crossed positions -/

/-- Each of two crossed positions counts as before the other. -/
lemma cmpCursor_of_crosses {a b : d.Position} (h : a.1.Crosses b.1) :
    cmpCursor a.1 b.1 = .lt ∧ cmpCursor b.1 a.1 = .lt := by
  obtain ⟨hblock, ⟨p, hp, q, hq, hrow, hcol⟩ | ⟨hcell, hrun, hbyte⟩⟩ := h
  · obtain hp : a.1.cell = some p := hp
    obtain hq : b.1.cell = some q := hq
    simp [cmpCursor, hblock, hp, hq, cmpCellPath, hrow, hcol]
  · have hin : cmpInParagraph a.1 b.1 = .lt ∧ cmpInParagraph b.1 a.1 = .lt := by
      simp [cmpInParagraph, hrun, hbyte]
    cases hp : b.1.cell with
    | none =>
      rw [cmpCursor_body hblock (hcell.trans hp) hp, cmpCursor_body hblock.symm hp (hcell.trans hp)]
      exact hin
    | some p =>
      have hself : ¬ (p.row < p.row ∧ p.col < p.col) := by simp
      have heq : cmpCellPath p p = .eq := by
        rw [cmpCellPath_eq hself]
        simp
      rw [cmpCursor_cell hblock (hcell.trans hp) hp hself,
        cmpCursor_cell hblock.symm hp (hcell.trans hp) hself, heq]
      exact hin

/-- `cmpCursor` is the order of the document exactly on the sets of positions no two of which
cross. -/
theorem orderedByDocument_iff (d : Document) (S : Set d.Position) :
    OrderedByDocument S ↔ ∀ a ∈ S, ∀ b ∈ S, ¬ a.1.Crosses b.1 := by
  constructor
  · intro h a ha b hb hcross
    obtain ⟨hab, hba⟩ := cmpCursor_of_crosses hcross
    have hswap := h.swap a ha b hb
    rw [hab, hba] at hswap
    cases hswap
  · intro h
    have hcmp (a) (ha : a ∈ S) (b) (hb : b ∈ S) := cmpCursor_compares (h b hb a ha)
    have hswap (a) (ha : a ∈ S) (b) (hb : b ∈ S) :
        cmpCursor b.1 a.1 = (cmpCursor a.1 b.1).swap :=
      (hcmp b hb a ha).inj (hcmp a ha b hb).swap
    refine ⟨hcmp, fun a ha b hb heq => ?_, hswap, fun a ha b hb c hc hab hbc => ?_,
      fun a ha b hb => ?_, fun a ha b hb => ?_⟩
    · apply Subtype.ext
      exact Cursor.eq_of_coordinates (((hcmp a ha b hb).eq_eq).1 heq)
    · rw [(hcmp a ha b hb).ne_gt] at hab
      rw [(hcmp b hb c hc).ne_gt] at hbc
      rw [(hcmp a ha c hc).ne_gt]
      exact hab.trans hbc
    · rw [Selection.normalized]
      split_ifs with hgt
      · simp [hswap a ha b hb, hgt]
      · exact hgt
    · simp only [Selection.normalized, hswap a ha b hb]
      cases heq : cmpCursor a.1 b.1 with
      | lt => simp
      | gt => simp
      | eq => simp [Cursor.eq_of_coordinates (((hcmp a ha b hb).eq_eq).1 heq)]

/-- A paragraph with the runs `AB` and `C`: the end of the first run and the start of the second one
each count as before the other. -/
theorem not_orderedByDocument_two_runs :
    ¬ ∀ d : Document, OrderedByDocument (Set.univ : Set d.Position) := by
  intro h
  let d : Document :=
    { blocks := [.paragraph { runs := [{ text := ['A', 'B'] }, { text := ['C'] }] }] }
  let endOfFirst : d.Position :=
    ⟨⟨0, none, 0, 2⟩, _, rfl, rfl, .inr ⟨_, rfl, ['A', 'B'], [], rfl, rfl⟩⟩
  let startOfSecond : d.Position :=
    ⟨⟨0, none, 1, 0⟩, _, rfl, rfl, .inr ⟨_, rfl, [], ['C'], rfl, rfl⟩⟩
  have hswap := (h d).swap endOfFirst trivial startOfSecond trivial
  exact absurd hswap (by decide)

end Orchid.Document
