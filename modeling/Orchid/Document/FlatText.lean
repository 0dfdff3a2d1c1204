import Orchid.Document.Cursor
import Orchid.Lib.Enumerate

/-!
# The flat text and its offsets

The paragraphs of the body in reading order, each with its place. The flat text joins them with line
breaks and leaves out the line breaks of empty paragraphs at the front; the two offset conversions
count a line break between any two paragraphs. The views agree exactly where the two ways to join
agree.
-/

namespace Orchid.Document

open Lib
open String (utf8Len)

/-! ### Paragraphs in reading order -/

/-- Where a paragraph stands: its block and its path in a table. -/
abbrev Place := ℕ × Option CellPath

/-- The place a cursor is in. -/
def Cursor.place (c : Cursor) : Place := (c.blockIdx, c.cell)

/-- The paragraphs of a cell. -/
def TableCell.places (bi ri : ℕ) (cell : TableCell) (ci : ℕ) : List (Place × Paragraph) :=
  enumFlatMap (fun p pi => [((bi, some ⟨ri, ci, pi, none⟩), p)]) cell.paragraphs

/-- The paragraphs of a table row. -/
def TableRow.places (bi : ℕ) (row : TableRow) (ri : ℕ) : List (Place × Paragraph) :=
  enumFlatMap (TableCell.places bi ri) row.cells

/-- The paragraphs of a block. -/
def Block.places (block : Block) (bi : ℕ) : List (Place × Paragraph) :=
  match block with
  | .paragraph p => [((bi, none), p)]
  | .table t => enumFlatMap (TableRow.places bi) t.rows
  | .image _ => []

/-- The paragraphs of the body, in reading order. -/
def places (blocks : List Block) : List (Place × Paragraph) := enumFlatMap Block.places blocks

/-- The texts of the paragraphs, in reading order. -/
def texts (l : List (Place × Paragraph)) : List Text := l.map fun x => x.2.plainText

lemma texts_append (l l' : List (Place × Paragraph)) : texts (l ++ l') = texts l ++ texts l' :=
  List.map_append

lemma nodup_places (blocks : List Block) : ((places blocks).map Prod.fst).Nodup := by
  rw [places, map_enumFlatMap]
  refine nodup_enumFlatMap _ Prod.fst (fun block bi => ?_) (fun block bi pl hpl => ?_)
  · cases block with
    | paragraph p => simp [Block.places]
    | image i => simp [Block.places]
    | table t =>
      rw [Block.places, map_enumFlatMap]
      refine nodup_enumFlatMap _ (fun pl => (pl.2.map CellPath.row).getD 0) (fun row ri => ?_) ?_
      · rw [TableRow.places, map_enumFlatMap]
        refine nodup_enumFlatMap _ (fun pl => (pl.2.map CellPath.col).getD 0) (fun cell ci => ?_) ?_
        · rw [TableCell.places, map_enumFlatMap]
          refine nodup_enumFlatMap _ (fun pl => (pl.2.map CellPath.paraIdx).getD 0) ?_ ?_
          all_goals simp
        · simp only [TableCell.places, List.mem_map, mem_enumFlatMap]
          rintro cell ci pl ⟨x, ⟨pi, p, -, hx⟩, rfl⟩
          obtain rfl : x = _ := by simpa using hx
          rfl
      · simp only [TableRow.places, TableCell.places, List.mem_map, mem_enumFlatMap]
        rintro row ri pl ⟨x, ⟨ci, cell, -, pi, p, -, hx⟩, rfl⟩
        obtain rfl : x = _ := by simpa using hx
        rfl
  · cases block with
    | paragraph p =>
      obtain rfl : pl = (bi, none) := by simpa [Block.places] using hpl
      rfl
    | image i => simp [Block.places] at hpl
    | table t =>
      simp only [Block.places, TableRow.places, TableCell.places, List.mem_map,
        mem_enumFlatMap] at hpl
      obtain ⟨x, ⟨ri, row, -, ci, cell, -, pi, p, -, hx⟩, rfl⟩ := hpl
      obtain rfl : x = _ := by simpa using hx
      rfl

/-- The paragraph a cursor addresses is the one at its place. -/
lemma mem_places_iff {blocks : List Block} {c : Cursor}
    (himg : c.cell.bind CellPath.imageIdx = none) {p : Paragraph} :
    (c.place, p) ∈ places blocks ↔ paragraphRef blocks c = some p := by
  rw [places, mem_enumFlatMap]
  obtain ⟨bi, cell, ri, off⟩ := c
  cases cell with
  | none =>
    simp only [Cursor.place, paragraphRef, paragraphAt]
    constructor
    · rintro ⟨i, block, hi, hmem⟩
      cases block with
      | paragraph q =>
        obtain ⟨rfl, rfl⟩ : bi = i ∧ p = q := by simpa [Block.places] using hmem
        rw [hi]
      | image => simp [Block.places] at hmem
      | table t =>
        simp [Block.places, TableRow.places, TableCell.places, mem_enumFlatMap] at hmem
    · intro h
      split at h
      · next q hq =>
        cases h
        exact ⟨bi, _, hq, by simp [Block.places]⟩
      · simp at h
  | some path =>
    obtain ⟨r, c, pi, img⟩ := path
    obtain rfl : img = none := by simpa using himg
    simp only [Cursor.place, paragraphRef, tableAt, Table.cellAt, Option.bind_eq_bind]
    constructor
    · rintro ⟨i, block, hi, hmem⟩
      cases block with
      | paragraph q => simp [Block.places] at hmem
      | image => simp [Block.places] at hmem
      | table t =>
        simp only [Block.places, TableRow.places, TableCell.places, mem_enumFlatMap] at hmem
        obtain ⟨r', row, hr, c', cell, hc, pi', q, hp, hx⟩ := hmem
        simp only [List.mem_singleton, Prod.mk.injEq, Option.some.injEq, CellPath.mk.injEq,
          and_true] at hx
        obtain ⟨⟨rfl, rfl, rfl, rfl⟩, rfl⟩ := hx
        simp [hi, hr, hc, hp]
    · intro h
      split at h
      · next t ht =>
        simp only [Option.bind_some, Option.bind_eq_some_iff] at h
        obtain ⟨cell, ⟨row, hr, hc⟩, hp⟩ := h
        refine ⟨bi, _, ht, ?_⟩
        simp only [Block.places, TableRow.places, TableCell.places, mem_enumFlatMap]
        exact ⟨r, row, hr, c, cell, hc, pi, p, hp, by simp⟩
      · simp at h

/-- The paragraphs split at the one a cursor addresses. -/
lemma exists_split {blocks : List Block} {c : Cursor}
    (himg : c.cell.bind CellPath.imageIdx = none) {p : Paragraph}
    (h : paragraphRef blocks c = some p) :
    ∃ pre post, places blocks = pre ++ (c.place, p) :: post ∧ ∀ x ∈ pre, x.1 ≠ c.place := by
  obtain ⟨pre, post, hsplit⟩ := List.append_of_mem ((mem_places_iff himg).mpr h)
  refine ⟨pre, post, hsplit, fun x hx heq => ?_⟩
  have hnd := nodup_places blocks
  rw [hsplit, List.map_append, List.map_cons, List.nodup_append] at hnd
  exact hnd.2.2 x.1 (List.mem_map_of_mem hx) c.place (by simp) heq

/-! ### The three walks over the paragraphs -/

lemma bodyText_eq (blocks : List Block) : bodyText blocks = joined '\n' (texts (places blocks)) := by
  rw [bodyText, joined, texts, List.foldl_map, places, enumFlatMap, List.foldl_flatMap,
    foldl_zipIdx]
  congr 1
  funext out x
  obtain ⟨block, bi⟩ := x
  cases block with
  | paragraph p => rfl
  | image i => rfl
  | table t =>
    simp only [Block.places, enumFlatMap, List.foldl_flatMap]
    rw [foldl_zipIdx]
    congr 1
    funext out x
    simp only [TableRow.places, enumFlatMap, List.foldl_flatMap]
    rw [foldl_zipIdx]
    congr 1
    funext out y
    simp only [TableCell.places, enumFlatMap, List.foldl_flatMap]
    rw [foldl_zipIdx]
    rfl

/-- The walk of `cursorFromPlainOffset` over paragraphs in reading order. -/
def offsetWalk (l : List (Place × Paragraph)) (offset : ℕ) : Except Cursor OffsetWalk :=
  l.foldlM (fun s x => s.paragraph x.1.1 x.1.2 x.2) ⟨offset, false, {}⟩

lemma cursorFromPlainOffset_eq (blocks : List Block) (offset : ℕ) :
    cursorFromPlainOffset blocks offset =
      OffsetWalk.finish (offsetWalk (places blocks) offset) := by
  have h : blocks.zipIdx.foldlM OffsetWalk.block ⟨offset, false, {}⟩ =
      offsetWalk (places blocks) offset := by
    rw [offsetWalk, places, enumFlatMap, foldlM_flatMap]
    congr 1
    funext s x
    obtain ⟨block, bi⟩ := x
    cases block with
    | paragraph p => simp [OffsetWalk.block, Block.places]
    | image i => rfl
    | table t =>
      simp [OffsetWalk.block, Block.places, TableRow.places, TableCell.places, enumFlatMap,
        foldlM_flatMap]
  rw [cursorFromPlainOffset, h]

/-- The walk of `plainOffsetFromCursor` over paragraphs in reading order. -/
def cursorWalk (c : Cursor) (l : List (Place × Paragraph)) : Except ℕ CursorWalk :=
  l.foldlM (fun s x => s.paragraph c (x.1 = c.place) x.2) {}

lemma plainOffsetFromCursor_eq (blocks : List Block) {c : Cursor}
    (himg : c.cell.bind CellPath.imageIdx = none) :
    plainOffsetFromCursor blocks c = CursorWalk.finish (cursorWalk c (places blocks)) := by
  have h : blocks.zipIdx.foldlM (CursorWalk.block c) {} = cursorWalk c (places blocks) := by
    rw [cursorWalk, places, enumFlatMap, foldlM_flatMap]
    congr 1
    funext s x
    obtain ⟨block, bi⟩ := x
    cases block with
    | paragraph p =>
      simp [CursorWalk.block, Block.places, Cursor.place, eq_comm (a := none)]
    | image i => rfl
    | table t =>
      have hhit : ∀ ri ci pi : ℕ,
          (c.cell.any fun path => (bi = c.blockIdx ∧ path.row = ri ∧ path.col = ci : Bool) ∧
            path.paraIdx = pi : Bool) = ((bi, some (CellPath.mk ri ci pi none)) = c.place : Bool) := by
        intro ri ci pi
        obtain ⟨bi', cell, run, off⟩ := c
        cases cell with
        | none => simp [Cursor.place]
        | some path =>
          obtain ⟨r, c, p, img⟩ := path
          obtain rfl : img = none := by simpa using himg
          simp [Cursor.place, and_assoc, eq_comm (a := r), eq_comm (a := c), eq_comm (a := p)]
      have hcell : ∀ ri ci : ℕ, (c.cell.any fun path =>
          (bi = c.blockIdx ∧ path.row = ri ∧ path.col = ci : Bool) ∧ path.imageIdx.isSome : Bool) =
          false := by
        intro ri ci
        cases hc : c.cell with
        | none => rfl
        | some path =>
          have himg' : path.imageIdx = none := by simpa [hc] using himg
          simp [himg']
      have hok : ∀ x : Except ℕ CursorWalk, (x >>= Except.ok) = x := bind_pure
      simp only [CursorWalk.block, Block.places, TableRow.places, TableCell.places, enumFlatMap,
        foldlM_flatMap, hhit, hcell]
      simp [hok]
  rw [plainOffsetFromCursor, h]

/-! ### Offsets inside a paragraph -/

/-- Length of some runs. -/
def runsLen (runs : List Run) : ℕ := utf8Len (runs.flatMap Run.text)

lemma paraLen_eq (p : Paragraph) : paraLen p = utf8Len p.plainText := by
  unfold paraLen Paragraph.plainText
  induction p.runs with
  | nil => rfl
  | cons r runs ih => rw [List.map_cons, List.sum_cons, ih, List.flatMap_cons, String.utf8Len_append]

/-- At a character boundary of a run: what is in front of it. -/
lemma offsetInRuns_eq {runs : List Run} {ri : ℕ} {r : Run} {u v : Text} (hr : runs[ri]? = some r)
    (ht : r.text = u ++ v) :
    offsetInRuns runs ri (utf8Len u) = utf8Len ((runs.take ri).flatMap Run.text ++ u) := by
  induction runs generalizing ri with
  | nil => simp at hr
  | cons run runs ih =>
    cases ri with
    | zero =>
      obtain rfl : run = r := by simpa using hr
      simp [offsetInRuns, ht]
    | succ ri =>
      rw [offsetInRuns, ih (by simpa using hr), List.take_succ_cons, List.flatMap_cons,
        List.append_assoc, String.utf8Len_append run.text]

/-- The two conversions inside a paragraph invert each other up to its length. -/
lemma offsetInRuns_cursorInRuns (runs : List Run) (n : ℕ) :
    offsetInRuns runs (cursorInRuns runs n).1 (cursorInRuns runs n).2 = min n (runsLen runs) := by
  fun_induction cursorInRuns runs n with
  | case1 n => simp [offsetInRuns, runsLen]
  | case2 run n => simp [offsetInRuns, runsLen]
  | case3 run runs n hne hle =>
    have : n ≤ runsLen (run :: runs) := by
      rw [runsLen, List.flatMap_cons, String.utf8Len_append]
      omega
    simp [offsetInRuns, hle, this]
  | case4 run runs n hne hlt ri off heq ih =>
    rw [heq] at ih
    have hlen : runsLen (run :: runs) = utf8Len run.text + runsLen runs := by
      rw [runsLen, runsLen, List.flatMap_cons, String.utf8Len_append]
    simp only [offsetInRuns, ih, hlen]
    omega

lemma offsetInPara_cursorInPara (bi : ℕ) (cell : Option CellPath) (p : Paragraph) (n : ℕ) :
    offsetInPara p (cursorInPara bi cell p n) = min n (utf8Len p.plainText) :=
  offsetInRuns_cursorInRuns p.runs n

lemma offsetInPara_endOfPara (bi : ℕ) (cell : Option CellPath) (p : Paragraph) :
    offsetInPara p (endOfPara bi cell p) = utf8Len p.plainText := by
  unfold endOfPara offsetInPara Paragraph.plainText
  rcases List.eq_nil_or_concat p.runs with h | ⟨runs, last, h⟩
  · simp [h, offsetInRuns]
  · have hr : p.runs[runs.length]? = some last := by simp [h]
    have hlast : p.runs.getLast? = some last := by simp [h]
    have := offsetInRuns_eq (v := []) hr (List.append_nil _).symm
    rw [hlast]
    simpa [h] using this

end Orchid.Document
