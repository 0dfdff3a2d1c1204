import Orchid.Document.Undo
import Orchid.Lib.Grouped
import Mathlib.Data.List.Range

/-!
# Stepping through a table cell

The caret's steps among the paragraphs and images of one cell, against the order in which the cell
shows them: after each paragraph the images anchored there, at the end the images whose anchor is
not in the cell.
-/

namespace Orchid.Document

open Lib
open String (utf8Len)

/-! ### One step -/

/-- Cursor on a cell image; the paragraph index is that of its anchor. -/
def Cursor.onCellImage (blockIdx row col afterParagraph imageIdx : ℕ) : Cursor :=
  { blockIdx, cell := some ⟨row, col, afterParagraph, some imageIdx⟩ }

/-- Cursor at the start of a cell paragraph. -/
def Cursor.inCell (blockIdx row col paraIdx : ℕ) : Cursor :=
  { blockIdx, cell := some ⟨row, col, paraIdx, none⟩ }

def cursorAtEndOfPara (p : Paragraph) (cursor : Cursor) : Bool :=
  match p.runs.getLast? with
  | none => true
  | some last => cursor.runIdx = p.runs.length - 1 ∧ utf8Len last.text ≤ cursor.byteOffset

/-- The first image anchored at a paragraph. -/
def firstImageAfterParagraph (cell : TableCell) (after : ℕ) : Option ℕ :=
  (cell.images.zipIdx.find? fun x => x.1.afterParagraph = after).map Prod.snd

def lastImageAfterParagraph (cell : TableCell) (after : ℕ) : Option ℕ :=
  (cell.images.zipIdx.reverse.find? fun x => x.1.afterParagraph = after).map Prod.snd

/-- From the last paragraph on, the first image whose anchor is behind it. -/
def firstOrphanImageAfter (blockIdx : ℕ) (path : CellPath) (cell : TableCell) (after : ℕ) :
    Option Cursor :=
  let last := cell.paragraphs.length - 1
  if after < last then none
  else (cell.images.zipIdx.find? fun x => last < x.1.afterParagraph).map fun (img, idx) =>
    .onCellImage blockIdx path.row path.col img.afterParagraph idx

def endOfCellParagraph (blockIdx : ℕ) (path : CellPath) (cell : TableCell) (after : ℕ) :
    Option Cursor :=
  match cell.paragraphs[after]? with
  | some p => some (endOfPara blockIdx (some ⟨path.row, path.col, after, none⟩) p)
  | none => if cell.paragraphs.isEmpty then some (.inCell blockIdx path.row path.col 0) else none

/-- The step from an image. -/
def adjacentToImage (blockIdx : ℕ) (path : CellPath) (cell : TableCell) (imageIdx : ℕ)
    (forward : Bool) : Except Fault (Option Cursor) :=
  if forward then
    if (cell.images[imageIdx + 1]?).any fun img => img.afterParagraph = path.paraIdx then
      .ok (some (.onCellImage blockIdx path.row path.col path.paraIdx (imageIdx + 1)))
    else if path.paraIdx + 1 < cell.paragraphs.length then
      .ok (some (.inCell blockIdx path.row path.col (path.paraIdx + 1)))
    else .ok (firstOrphanImageAfter blockIdx path cell path.paraIdx)
  else
    match imageIdx with
    | 0 => .ok (endOfCellParagraph blockIdx path cell path.paraIdx)
    | i + 1 =>
      match cell.images[i]? with
      | none => .error .panic
      | some img =>
        if img.afterParagraph = path.paraIdx then
          .ok (some (.onCellImage blockIdx path.row path.col path.paraIdx i))
        else .ok (endOfCellParagraph blockIdx path cell path.paraIdx)

/-- The step from a paragraph: forward at its end, backward at its start. -/
def adjacentToParagraph (cursor : Cursor) (path : CellPath) (cell : TableCell) (p : Paragraph)
    (forward : Bool) : Option Cursor :=
  if forward then
    if cursorAtEndOfPara p cursor then
      match firstImageAfterParagraph cell path.paraIdx with
      | some i => some (.onCellImage cursor.blockIdx path.row path.col path.paraIdx i)
      | none =>
        if path.paraIdx + 1 < cell.paragraphs.length then
          some (.inCell cursor.blockIdx path.row path.col (path.paraIdx + 1))
        else firstOrphanImageAfter cursor.blockIdx path cell path.paraIdx
    else none
  else if cursor.runIdx = 0 ∧ cursor.byteOffset = 0 then
    -- the first paragraph looks for images behind itself
    match lastImageAfterParagraph cell (path.paraIdx - 1) with
    | some i => some (.onCellImage cursor.blockIdx path.row path.col (path.paraIdx - 1) i)
    | none =>
      match path.paraIdx with
      | 0 => none
      | prev + 1 => (cell.paragraphs[prev]?).map
          (endOfPara cursor.blockIdx (some ⟨path.row, path.col, prev, none⟩))
  else none

/-- Step among paragraphs and cell images in document order within one cell. -/
def adjacentInCell (blocks : List Block) (cursor : Cursor) (forward : Bool) :
    Except Fault (Option Cursor) :=
  match cursor.cell with
  | none => .ok none
  | some path =>
    match (tableAt blocks cursor.blockIdx).bind fun t => t.cellAt path.row path.col with
    | none => .ok none
    | some cell =>
      match path.imageIdx with
      | some imageIdx => adjacentToImage cursor.blockIdx path cell imageIdx forward
      | none =>
        .ok ((cell.paragraphs[path.paraIdx]?).bind fun p =>
          adjacentToParagraph cursor path cell p forward)

/-! ### The stops of a cell -/

/-- A cell of a document. -/
structure CellAddress (d : Document) where
  blockIdx : ℕ
  row : ℕ
  col : ℕ
  cell : TableCell
  found : (tableAt d.blocks blockIdx).bind (fun t => t.cellAt row col) = some cell

/-- A paragraph or an image of a cell, by its index. -/
inductive Stop where
  | paragraph (i : ℕ)
  | image (i afterParagraph : ℕ)
deriving DecidableEq

/-- The images whose anchor meets a condition, in the order of the list. -/
def TableCell.imagesWhere (cell : TableCell) (cond : ℕ → Bool) : List Stop :=
  (indexed (fun img => cond img.afterParagraph) cell.images 0).map fun x =>
    .image x.2 x.1.afterParagraph

/-- A paragraph with the images behind it. -/
def TableCell.shownAt (cell : TableCell) (k : ℕ) : List Stop :=
  .paragraph k :: cell.imagesWhere (· = k)

/-- The stops of a cell as they are shown; an empty cell has its start as a stop. -/
def TableCell.shown (cell : TableCell) : List Stop :=
  (List.range (max cell.paragraphs.length 1)).flatMap cell.shownAt ++
    cell.imagesWhere (max cell.paragraphs.length 1 ≤ ·)

variable {d : Document}

namespace CellAddress

/-- The cursor with which a step enters a stop when going forward. -/
def entry (a : CellAddress d) : Stop → Cursor
  | .paragraph k => .inCell a.blockIdx a.row a.col k
  | .image i k => .onCellImage a.blockIdx a.row a.col k i

/-- The cursor from which a stop is left when going forward: in a paragraph its end. -/
def exit (a : CellAddress d) : Stop → Cursor
  | .paragraph k => endOfPara a.blockIdx (some ⟨a.row, a.col, k, none⟩)
      (a.cell.paragraphs[k]?.getD {})
  | .image i k => .onCellImage a.blockIdx a.row a.col k i

/-- Walking forward from the start of the cell visits its stops as they are shown, each once, and
ends behind the last; a step back undoes each step. -/
def Navigates (a : CellAddress d) : Prop :=
  a.cell.shown.IsChain (fun s t =>
      adjacentInCell d.blocks (a.exit s) true = .ok (some (a.entry t)) ∧
        adjacentInCell d.blocks (a.entry t) false = .ok (some (a.exit s))) ∧
    ∀ s ∈ a.cell.shown.getLast?, adjacentInCell d.blocks (a.exit s) true = .ok none

end CellAddress

/-- Every anchor is a paragraph of the cell, and the images of a paragraph stand next to each other
in the list. -/
def TableCell.ImagesInOrder (cell : TableCell) : Prop :=
  (∀ img ∈ cell.images, img.afterParagraph < cell.paragraphs.length) ∧
    ∀ k, Grouped (fun img => img.afterParagraph = k) cell.images

/-! ### Steps of a cell -/

namespace CellAddress

variable (a : CellAddress d)

lemma adjacent_image (i k : ℕ) (forward : Bool) :
    adjacentInCell d.blocks (a.exit (.image i k)) forward =
      adjacentToImage a.blockIdx ⟨a.row, a.col, k, some i⟩ a.cell i forward := by
  simp [adjacentInCell, exit, Cursor.onCellImage, a.found]

lemma adjacent_paragraph {k : ℕ} {p : Paragraph} (hp : a.cell.paragraphs[k]? = some p)
    {cursor : Cursor} (hblock : cursor.blockIdx = a.blockIdx)
    (hcell : cursor.cell = some ⟨a.row, a.col, k, none⟩) (forward : Bool) :
    adjacentInCell d.blocks cursor forward =
      .ok (adjacentToParagraph cursor ⟨a.row, a.col, k, none⟩ a.cell p forward) := by
  simp [adjacentInCell, hblock, hcell, a.found, hp]

lemma endOfPara_cursor (blockIdx : ℕ) (cell : Option CellPath) (p : Paragraph) :
    (endOfPara blockIdx cell p).blockIdx = blockIdx ∧ (endOfPara blockIdx cell p).cell = cell ∧
      cursorAtEndOfPara p (endOfPara blockIdx cell p) := by
  cases hlast : p.runs.getLast? with
  | none => simp [endOfPara, cursorAtEndOfPara, hlast]
  | some last => simp [endOfPara, cursorAtEndOfPara, hlast]

/-- The first image of a paragraph, as a list of stops begins with it. -/
lemma firstImage_eq (cell : TableCell) (k : ℕ) :
    firstImageAfterParagraph cell k =
      (indexed (fun img => img.afterParagraph = k) cell.images 0).head?.map Prod.snd := by
  rw [indexed, List.head?_filter]
  rfl

lemma lastImage_eq (cell : TableCell) (k : ℕ) :
    lastImageAfterParagraph cell k =
      (indexed (fun img => img.afterParagraph = k) cell.images 0).getLast?.map Prod.snd := by
  rw [indexed, List.getLast?_filter]
  rfl

/-- Forward from the end of a paragraph. -/
lemma forward_paragraph {k : ℕ} (hk : k < a.cell.paragraphs.length) :
    adjacentInCell d.blocks (a.exit (.paragraph k)) true = .ok
      (match firstImageAfterParagraph a.cell k with
      | some i => some (a.entry (.image i k))
      | none =>
        if k + 1 < a.cell.paragraphs.length then some (a.entry (.paragraph (k + 1)))
        else firstOrphanImageAfter a.blockIdx ⟨a.row, a.col, k, none⟩ a.cell k) := by
  have hp := List.getElem?_eq_getElem hk
  obtain ⟨hblock, hcell, hend⟩ := endOfPara_cursor a.blockIdx (some ⟨a.row, a.col, k, none⟩)
    a.cell.paragraphs[k]
  rw [exit, hp, Option.getD_some, a.adjacent_paragraph hp hblock hcell, adjacentToParagraph,
    if_pos rfl, if_pos hend, hblock]
  rfl

/-- Backward from the start of a later paragraph. -/
lemma backward_paragraph {k : ℕ} (hk : k + 1 < a.cell.paragraphs.length) :
    adjacentInCell d.blocks (a.entry (.paragraph (k + 1))) false = .ok
      (match lastImageAfterParagraph a.cell k with
      | some i => some (a.exit (.image i k))
      | none => some (a.exit (.paragraph k))) := by
  have hp := List.getElem?_eq_getElem hk
  have hp' := List.getElem?_eq_getElem (Nat.lt_of_succ_lt hk)
  rw [a.adjacent_paragraph hp rfl rfl]
  simp only [adjacentToParagraph, entry, Cursor.inCell, Bool.false_eq_true, if_false, and_self,
    if_true, Nat.add_sub_cancel, exit, hp', Option.map_some, Option.getD_some]

/-- Forward from an image. -/
lemma forward_image (i k : ℕ) :
    adjacentInCell d.blocks (a.exit (.image i k)) true = .ok
      (if (a.cell.images[i + 1]?).any (fun img => img.afterParagraph = k) then
        some (a.entry (.image (i + 1) k))
      else if k + 1 < a.cell.paragraphs.length then some (a.entry (.paragraph (k + 1)))
      else firstOrphanImageAfter a.blockIdx ⟨a.row, a.col, k, some i⟩ a.cell k) := by
  rw [adjacent_image, adjacentToImage.eq_def, if_pos rfl]
  split_ifs <;> rfl

/-- Backward to the image before. -/
lemma backward_image {i k : ℕ} {img : CellImage} (himg : a.cell.images[i]? = some img)
    (hk : img.afterParagraph = k) :
    adjacentInCell d.blocks (a.entry (.image (i + 1) k)) false =
      .ok (some (a.exit (.image i k))) := by
  have hstep : adjacentInCell d.blocks (a.entry (.image (i + 1) k)) false = _ :=
    a.adjacent_image (i + 1) k false
  rw [hstep]
  simp [adjacentToImage, himg, hk, exit]

/-- Backward from the first image of a paragraph. -/
lemma backward_first {i k : ℕ} (hk : k < a.cell.paragraphs.length)
    (hlen : i < a.cell.images.length)
    (hfirst : ∀ j img, i = j + 1 → a.cell.images[j]? = some img → img.afterParagraph ≠ k) :
    adjacentInCell d.blocks (a.entry (.image i k)) false =
      .ok (some (a.exit (.paragraph k))) := by
  have hstep : adjacentInCell d.blocks (a.entry (.image i k)) false = _ :=
    a.adjacent_image i k false
  have hend : endOfCellParagraph a.blockIdx ⟨a.row, a.col, k, some i⟩ a.cell k =
      some (a.exit (.paragraph k)) := by
    simp [endOfCellParagraph, exit, List.getElem?_eq_getElem hk]
  rw [hstep]
  cases i with
  | zero => simp [adjacentToImage, hend]
  | succ j =>
    have himg := List.getElem?_eq_getElem (Nat.lt_of_succ_lt hlen)
    have hne := hfirst j _ rfl himg
    simp [adjacentToImage, himg, hne, hend]

/-! ### Walks -/

/-- Two stops one after the other: the step between them, there and back. -/
def Linked (s t : Stop) : Prop :=
  adjacentInCell d.blocks (a.exit s) true = .ok (some (a.entry t)) ∧
    adjacentInCell d.blocks (a.entry t) false = .ok (some (a.exit s))

/-- The images of a paragraph with their indices. -/
def imagesOf (k : ℕ) : List (CellImage × ℕ) :=
  indexed (fun img => img.afterParagraph = k) a.cell.images 0

lemma mem_imagesOf {k : ℕ} {x : CellImage × ℕ} :
    x ∈ a.imagesOf k ↔ a.cell.images[x.2]? = some x.1 ∧ x.1.afterParagraph = k := by
  simp [imagesOf, mem_indexed]

lemma shownAt_eq (k : ℕ) : a.cell.shownAt k =
    .paragraph k :: (a.imagesOf k).map fun x => .image x.2 k := by
  rw [TableCell.shownAt, TableCell.imagesWhere]
  congr 1
  refine List.map_congr_left fun x hx => ?_
  rw [((a.mem_imagesOf).1 hx).2]

/-- An orphan image is entered with its own anchor. -/
lemma orphan_of_eq_some {path : CellPath} {cell : TableCell} {blockIdx after : ℕ} {c : Cursor}
    (h : firstOrphanImageAfter blockIdx path cell after = some c) :
    ∃ img ∈ cell.images, ∃ i, cell.paragraphs.length - 1 < img.afterParagraph ∧
      c = .onCellImage blockIdx path.row path.col img.afterParagraph i := by
  rw [firstOrphanImageAfter] at h
  split_ifs at h with hlt
  obtain ⟨⟨img, i⟩, hfind, rfl⟩ := Option.map_eq_some_iff.1 h
  have hmem := List.mk_mem_zipIdx_iff_getElem?.1 (List.mem_of_find?_eq_some hfind)
  refine ⟨img, List.mem_of_getElem? hmem, i, ?_, rfl⟩
  simpa using List.find?_some hfind

/-- The images of a paragraph are linked one to the next exactly if they stand next to each other
in the list. -/
lemma isChain_images_iff {k : ℕ} (hk : k < a.cell.paragraphs.length) :
    ((a.imagesOf k).map fun x => Stop.image x.2 k).IsChain a.Linked ↔
      Grouped (fun img => img.afterParagraph = k) a.cell.images := by
  rw [← isChain_indexed_iff (n := 0), List.isChain_map]
  refine List.IsChain.iff_of_mem_imp fun x y hx hy => ?_
  obtain ⟨hx, hxk⟩ := (a.mem_imagesOf).1 hx
  obtain ⟨hy, hyk⟩ := (a.mem_imagesOf).1 hy
  constructor
  · rintro ⟨hforward, -⟩
    rw [a.forward_image] at hforward
    split_ifs at hforward with hnext hpara
    · simpa [entry, Cursor.onCellImage] using hforward.symm
    · simp [entry, Cursor.onCellImage, Cursor.inCell] at hforward
    · obtain ⟨img, -, i, hlast, hc⟩ := orphan_of_eq_some (Except.ok.inj hforward)
      have hanchor : k = img.afterParagraph ∧ y.2 = i := by
        simpa [entry, Cursor.onCellImage] using congrArg Cursor.cell hc
      omega
  · intro h
    rw [h] at hy
    refine ⟨?_, ?_⟩
    · rw [a.forward_image, hy, h]
      simp [hyk]
    · rw [h]
      exact a.backward_image hx hxk

lemma pairwise_imagesOf (k : ℕ) : (a.imagesOf k).Pairwise fun x y => x.2 < y.2 :=
  pairwise_indexed _ _ 0

/-- From a paragraph to its first image. -/
lemma linked_first {k : ℕ} (hk : k < a.cell.paragraphs.length) {x : CellImage × ℕ}
    (hx : (a.imagesOf k).head? = some x) : a.Linked (.paragraph k) (.image x.2 k) := by
  obtain ⟨rest, hrest⟩ := List.head?_eq_some_iff.1 hx
  have hmem := (a.mem_imagesOf).1 (List.mem_of_head? hx)
  constructor
  · rw [a.forward_paragraph hk, firstImage_eq, ← imagesOf, hx]
    rfl
  · refine a.backward_first hk (List.getElem?_eq_some_iff.1 hmem.1).1 ?_
    intro j img hj himg hanchor
    have hmem' : (img, j) ∈ a.imagesOf k := (a.mem_imagesOf).2 ⟨himg, hanchor⟩
    have hsorted := a.pairwise_imagesOf k
    rw [hrest, List.pairwise_cons] at hsorted
    rw [hrest, List.mem_cons] at hmem'
    rcases hmem' with rfl | hlater
    · omega
    · have := hsorted.1 _ hlater
      omega

lemma isChain_shownAt {k : ℕ} (hk : k < a.cell.paragraphs.length)
    (h : Grouped (fun img => img.afterParagraph = k) a.cell.images) :
    (a.cell.shownAt k).IsChain a.Linked := by
  rw [shownAt_eq, List.isChain_cons]
  refine ⟨fun t ht => ?_, (a.isChain_images_iff hk).2 h⟩
  rw [List.head?_map] at ht
  obtain ⟨x, hx, rfl⟩ := Option.map_eq_some_iff.1 ht
  exact a.linked_first hk hx

/-- No image of the paragraph follows its last one. -/
lemma not_after_last {k : ℕ} {x : CellImage × ℕ} (hx : (a.imagesOf k).getLast? = some x) :
    (a.cell.images[x.2 + 1]?).any (fun img => img.afterParagraph = k) = false := by
  rw [Option.any_eq_false]
  intro img himg
  rw [decide_eq_false_iff_not]
  intro hanchor
  obtain ⟨front, hfront⟩ := List.getLast?_eq_some_iff.1 hx
  have hmem : (img, x.2 + 1) ∈ a.imagesOf k := (a.mem_imagesOf).2 ⟨himg, hanchor⟩
  have hsorted := a.pairwise_imagesOf k
  rw [hfront, List.pairwise_append] at hsorted
  rw [hfront, List.mem_append, List.mem_singleton] at hmem
  rcases hmem with hearlier | heq
  · have := hsorted.2.2 _ hearlier x (List.mem_singleton_self x)
    omega
  · have := congrArg Prod.snd heq
    simp at this

/-- Forward from the last stop of a paragraph. -/
lemma forward_last {k : ℕ} (hk : k < a.cell.paragraphs.length) {s : Stop}
    (hs : (a.cell.shownAt k).getLast? = some s) :
    adjacentInCell d.blocks (a.exit s) true = .ok
      (if k + 1 < a.cell.paragraphs.length then some (a.entry (.paragraph (k + 1)))
      else firstOrphanImageAfter a.blockIdx ⟨a.row, a.col, k, none⟩ a.cell k) := by
  rw [shownAt_eq] at hs
  cases hlast : (a.imagesOf k).getLast? with
  | none =>
    have hnil : a.imagesOf k = [] := List.getLast?_eq_none_iff.1 hlast
    have hs' : s = .paragraph k := by
      rw [hnil] at hs
      exact (Option.some.inj hs).symm
    rw [hs', a.forward_paragraph hk, firstImage_eq, ← imagesOf, hnil]
    rfl
  | some x =>
    have hs' : s = .image x.2 k := by
      rw [List.getLast?_cons, List.getLast?_map, hlast] at hs
      exact (Option.some.inj hs).symm
    rw [hs', a.forward_image, a.not_after_last hlast]
    rfl

lemma linked_last {k : ℕ} (hk : k + 1 < a.cell.paragraphs.length) {s : Stop}
    (hs : (a.cell.shownAt k).getLast? = some s) : a.Linked s (.paragraph (k + 1)) := by
  constructor
  · rw [a.forward_last (Nat.lt_of_succ_lt hk) hs, if_pos hk]
  · rw [shownAt_eq] at hs
    rw [a.backward_paragraph hk, lastImage_eq, ← imagesOf]
    cases hlast : (a.imagesOf k).getLast? with
    | none =>
      rw [List.getLast?_eq_none_iff.1 hlast] at hs
      obtain rfl := Option.some.inj hs
      rfl
    | some x =>
      rw [List.getLast?_cons, List.getLast?_map, hlast] at hs
      obtain rfl := Option.some.inj hs
      rfl

lemma orphan_eq_none_iff {k after : ℕ} {imageIdx : Option ℕ}
    (hk : a.cell.paragraphs.length ≤ k + 1) :
    firstOrphanImageAfter a.blockIdx ⟨a.row, a.col, after, imageIdx⟩ a.cell k = none ↔
      ∀ img ∈ a.cell.images, img.afterParagraph ≤ a.cell.paragraphs.length - 1 := by
  rw [firstOrphanImageAfter, if_neg (by omega), Option.map_eq_none_iff, List.find?_eq_none]
  constructor
  · intro h img himg
    obtain ⟨i, hi⟩ := List.mem_iff_getElem?.1 himg
    simpa using h (img, i) (List.mk_mem_zipIdx_iff_getElem?.2 hi)
  · rintro h ⟨img, i⟩ himg
    simpa using h img (List.mem_of_getElem? (List.mk_mem_zipIdx_iff_getElem?.1 himg))

/-! ### The whole cell -/

/-- The paragraphs of the cell with the images behind them are linked exactly if the images of each
paragraph stand next to each other. -/
lemma isChain_paragraphs_iff {n : ℕ} (hn : a.cell.paragraphs.length = n + 1) :
    ((List.range (n + 1)).flatMap a.cell.shownAt).IsChain a.Linked ↔
      ∀ k < n + 1, Grouped (fun img => img.afterParagraph = k) a.cell.images := by
  rw [List.flatMap, List.isChain_flatten (by simp [TableCell.shownAt])]
  constructor
  · rintro ⟨hin, -⟩ k hk
    have hchain := hin _ (List.mem_map_of_mem (List.mem_range.2 hk))
    rw [shownAt_eq] at hchain
    exact (a.isChain_images_iff (hn ▸ hk)).1 hchain.tail
  · intro h
    refine ⟨fun l hl => ?_, ?_⟩
    · obtain ⟨k, hk, rfl⟩ := List.mem_map.1 hl
      have hk := List.mem_range.1 hk
      exact a.isChain_shownAt (hn ▸ hk) (h k hk)
    · rw [List.isChain_map, List.isChain_range_succ]
      intro k hk s hs t ht
      obtain rfl := Option.some.inj ht
      exact a.linked_last (by omega) hs

lemma getLast_paragraphs (cell : TableCell) (n : ℕ) :
    ((List.range (n + 1)).flatMap cell.shownAt).getLast? = (cell.shownAt n).getLast? := by
  rw [List.range_succ, List.flatMap_append, List.flatMap_singleton]
  exact List.getLast?_append_of_ne_nil _ (List.cons_ne_nil _ _)

lemma imagesWhere_eq_nil_iff {cell : TableCell} {cond : ℕ → Bool} :
    cell.imagesWhere cond = [] ↔ ∀ img ∈ cell.images, ¬ cond img.afterParagraph := by
  rw [TableCell.imagesWhere, List.map_eq_nil_iff, indexed_eq_nil_iff]

lemma navigates_of_empty (hempty : a.cell.paragraphs = []) :
    a.Navigates ↔ a.cell.images = [] := by
  have hstep : adjacentInCell d.blocks (a.exit (.paragraph 0)) true = .ok none := by
    have hstart : a.exit (.paragraph 0) = .inCell a.blockIdx a.row a.col 0 := by
      rw [exit, hempty]
      rfl
    simp [hstart, adjacentInCell, Cursor.inCell, hempty, a.found]
  have hshown : a.cell.shown =
      .paragraph 0 :: (a.cell.imagesWhere (· = 0) ++ a.cell.imagesWhere (1 ≤ ·)) := by
    simp [TableCell.shown, hempty, TableCell.shownAt]
  rw [Navigates, hshown]
  constructor
  · rintro ⟨hchain, -⟩
    cases hrest : a.cell.imagesWhere (· = 0) ++ a.cell.imagesWhere (1 ≤ ·) with
    | nil =>
      obtain ⟨hzero, hlater⟩ := List.append_eq_nil_iff.1 hrest
      rw [imagesWhere_eq_nil_iff] at hzero hlater
      refine List.eq_nil_iff_forall_not_mem.2 fun img himg => ?_
      have hne := hzero img himg
      have hlt := hlater img himg
      simp only [decide_eq_true_eq] at hne hlt
      omega
    | cons t rest =>
      rw [hrest, List.isChain_cons_cons, hstep] at hchain
      simp at hchain
  · intro himages
    have hnone (cond : ℕ → Bool) : a.cell.imagesWhere cond = [] := by
      simp [imagesWhere_eq_nil_iff, himages]
    rw [hnone, hnone]
    refine ⟨List.isChain_singleton _, fun s hs => ?_⟩
    obtain rfl := Option.some.inj hs
    exact hstep

lemma navigates_iff_of_nonempty {n : ℕ} (hn : a.cell.paragraphs.length = n + 1) :
    a.Navigates ↔ a.cell.ImagesInOrder := by
  have hmax : max a.cell.paragraphs.length 1 = n + 1 := by omega
  rw [Navigates, TableCell.shown, hmax]
  constructor
  · rintro ⟨hchain, hlast⟩
    have hin : ∀ img ∈ a.cell.images, img.afterParagraph < n + 1 := by
      cases horphan : (a.cell.imagesWhere (n + 1 ≤ ·)).getLast? with
      | none =>
        have hnone := imagesWhere_eq_nil_iff.1 (List.getLast?_eq_none_iff.1 horphan)
        intro img himg
        simpa using hnone img himg
      | some s =>
        -- the last stop is an orphan, and the search for orphans finds one again
        obtain ⟨x, hx, rfl⟩ := List.mem_map.1 (List.mem_of_getLast? horphan)
        obtain ⟨himg, hanchor⟩ := mem_indexed.1 hx
        simp only [decide_eq_true_eq] at hanchor
        have hend := hlast (.image x.2 x.1.afterParagraph) (by
          rw [List.getLast?_append, horphan]
          rfl)
        rw [a.forward_image] at hend
        split_ifs at hend with hnext hpara
        · cases hend
        · cases hend
        · have hle := (orphan_eq_none_iff a (by omega)).1 (Except.ok.inj hend) x.1
            (List.mem_of_getElem? himg)
          omega
    refine ⟨hn ▸ hin, fun k => ?_⟩
    by_cases hk : k < n + 1
    · exact (a.isChain_paragraphs_iff hn).1 hchain.left_of_append k hk
    · intro i _ _ _ _ img _ _ himg _ _ hanchor
      have := hin img (List.mem_of_getElem? himg)
      simp only [decide_eq_true_eq] at hanchor
      omega
  · rintro ⟨hanchor, hgrouped⟩
    have horphans : a.cell.imagesWhere (n + 1 ≤ ·) = [] := by
      rw [imagesWhere_eq_nil_iff]
      intro img himg
      have := hanchor img himg
      simp
      omega
    rw [horphans, List.append_nil]
    refine ⟨(a.isChain_paragraphs_iff hn).2 fun k _ => hgrouped k, fun s hs => ?_⟩
    rw [getLast_paragraphs] at hs
    rw [a.forward_last (by omega) hs, if_neg (by omega)]
    congr 1
    rw [orphan_eq_none_iff a (by omega)]
    exact fun img himg => Nat.le_sub_one_of_lt (hanchor img himg)

/-- The walk through a cell is right exactly if its images are in order. -/
theorem navigates_iff : a.Navigates ↔ a.cell.ImagesInOrder := by
  cases hlen : a.cell.paragraphs.length with
  | zero =>
    rw [a.navigates_of_empty (List.length_eq_zero_iff.1 hlen)]
    constructor
    · intro himages
      simp [TableCell.ImagesInOrder, Grouped, himages]
    · rintro ⟨hanchor, -⟩
      refine List.eq_nil_iff_forall_not_mem.2 fun img himg => ?_
      have := hanchor img himg
      omega
  | succ n => exact a.navigates_iff_of_nonempty hlen

end CellAddress

/-- A cell with an image whose anchor is behind its only paragraph: the step from the image leads to
the image, again and again. -/
theorem not_navigates_orphan : ¬ ∀ (d : Document) (a : CellAddress d), a.Navigates := by
  intro h
  let cell : TableCell :=
    { paragraphs := [{}]
      images := [{ afterParagraph := 1, image := ⟨[], .png, 1, 1, none, none⟩ }] }
  let d : Document := { blocks := [.table { rows := [{ cells := [cell] }] }] }
  have hlast := (h d ⟨0, 0, 0, cell, rfl⟩).2 (.image 0 1) rfl
  cases hlast

end Orchid.Document
