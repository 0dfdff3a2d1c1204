import Orchid.Document.FlatText
import Orchid.Document.TextEdit

/-!
# The paragraphs under an edit

The texts that a body joins to its flat text, and what a write to one paragraph does to them.
-/

namespace Orchid.Document

open Lib
open String (utf8Len)

/-! ### Texts of blocks -/

/-- The texts of the paragraphs of a row. -/
def TableRow.texts (row : TableRow) : List Text :=
  row.cells.flatMap fun cell => cell.paragraphs.map Paragraph.plainText

/-- The texts of the paragraphs of a block. -/
def Block.texts : Block → List Text
  | .paragraph p => [p.plainText]
  | .table t => t.rows.flatMap TableRow.texts
  | .image _ => []

lemma Block.texts_places (block : Block) (bi : ℕ) :
    Document.texts (block.places bi) = block.texts := by
  cases block with
  | paragraph p => rfl
  | image i => rfl
  | table t =>
    simp only [Document.texts, Block.places, Block.texts, map_enumFlatMap, TableRow.places,
      TableCell.places, List.map_cons, List.map_nil]
    rw [← enumFlatMap_const]
    congr 1
    funext row ri
    rw [TableRow.texts, ← enumFlatMap_const]
    congr 1
    funext cell ci
    rw [enumFlatMap_const fun p : Paragraph => [p.plainText], ← List.map_eq_flatMap]

lemma texts_places (blocks : List Block) : texts (places blocks) = blocks.flatMap Block.texts := by
  rw [texts, places, map_enumFlatMap, ← enumFlatMap_const]
  congr 1
  funext block bi
  exact block.texts_places bi

/-- The flat text joins the texts of the blocks. -/
lemma bodyText_eq_joined (blocks : List Block) :
    bodyText blocks = joined '\n' (blocks.flatMap Block.texts) := by
  rw [bodyText_eq, texts_places]

/-! ### Writing one paragraph -/

/-- The place of the paragraph that an edit at the cursor works on. -/
def Cursor.textPlace (c : Cursor) : Place :=
  (c.blockIdx, c.cell.map fun path => { path with imageIdx := none })

lemma window_asParagraph (bi : ℕ) :
    asParagraph.Window (Block.places · bi) fun p => [((bi, none), p)] := by
  refine .of_eq fun block p h => ?_
  cases block with
  | paragraph q =>
    obtain rfl : q = p := by simpa [asParagraph, Focus.case] using h
    rfl
  | table t => simp [asParagraph, Focus.case] at h
  | image i => simp [asParagraph, Focus.case] at h

lemma window_asTable (bi : ℕ) :
    asTable.Window (Block.places · bi) fun t => enumFlatMap (TableRow.places bi) t.rows := by
  refine .of_eq fun block t h => ?_
  cases block with
  | paragraph q => simp [asTable, Focus.case] at h
  | table q =>
    obtain rfl : q = t := by simpa [asTable, Focus.case] using h
    rfl
  | image i => simp [asTable, Focus.case] at h

/-- A cell as a part of the body. -/
def cellIn (i row col : ℕ) : Focus (List Block) TableCell :=
  (Focus.index Block i).comp <| asTable.comp <| rowsOf.comp <| (Focus.index TableRow row).comp <|
    cellsOf.comp <| Focus.index TableCell col

lemma bodyCell_eq (i row col : ℕ) : bodyCell i row col = blocksOf.comp (cellIn i row col) := by
  simp only [bodyCell, bodyTable, blockAt, cellIn, Focus.comp_assoc]

lemma window_cellIn (i row col : ℕ) :
    (cellIn i row col).Window places (TableCell.places i row · col) := by
  refine .comp (.index Block.places i) <| .comp (window_asTable i) <|
    .comp (.of_eq fun t _ h => ?_) <| .comp (.index (TableRow.places i) row) <|
    .comp (.of_eq fun r _ h => ?_) <| .index (TableCell.places i row) col
  all_goals
    cases h
    rfl

/-- The paragraph that an edit at the cursor works on as a part of the body. -/
def paragraphIn (c : Cursor) : Focus (List Block) Paragraph :=
  match c.cell with
  | none => (Focus.index Block c.blockIdx).comp asParagraph
  | some path => (cellIn c.blockIdx path.row path.col).comp <| paragraphsOf.comp <|
      Focus.index Paragraph path.paraIdx

lemma paragraphMut_eq (c : Cursor) : paragraphMut c = blocksOf.comp (paragraphIn c) := by
  obtain ⟨bi, cell, run, off⟩ := c
  cases cell with
  | none => exact Focus.comp_assoc _ _ _
  | some path => simp only [paragraphMut, bodyCell_eq, paragraphIn, Focus.comp_assoc]

lemma window_paragraphIn (c : Cursor) :
    (paragraphIn c).Window places fun p => [(c.textPlace, p)] := by
  obtain ⟨bi, cell, run, off⟩ := c
  cases cell with
  | none => exact .comp (.index Block.places bi) (window_asParagraph bi)
  | some path =>
    refine .comp (window_cellIn bi path.row path.col) <| .comp (.of_eq fun cell _ h => ?_) <|
      .index (fun (p : Paragraph) pi => [((bi, some (CellPath.mk path.row path.col pi none)), p)])
        path.paraIdx
    cases h
    rfl

/-- A cell that keeps its paragraphs keeps the texts of the body. -/
lemma texts_set_bodyCell {d : Document} {i row col : ℕ} {cell cell' : TableCell}
    (h : (bodyCell i row col).get? d = some cell) (hp : cell'.paragraphs = cell.paragraphs) :
    ∃ blocks, (bodyCell i row col).set cell' d = { d with blocks } ∧
      blocks.flatMap Block.texts = d.blocks.flatMap Block.texts := by
  rw [bodyCell_eq] at h ⊢
  obtain ⟨pre, post, hpl, hset⟩ := window_cellIn i row col h
  refine ⟨(cellIn i row col).set cell' d.blocks, Focus.set_comp rfl _, ?_⟩
  have hcell : TableCell.places i row cell' col = TableCell.places i row cell col := by
    rw [TableCell.places, TableCell.places, hp]
  have hsame : places ((cellIn i row col).set cell' d.blocks) = places d.blocks := by
    rw [hset cell', hpl]
    exact congrArg (pre ++ · ++ post) hcell
  rw [← texts_places, ← texts_places, hsame]

/-- The paragraphs in front of the one an edit works on. -/
def Cursor.front (c : Cursor) (blocks : List Block) : List (Place × Paragraph) :=
  (places blocks).takeWhile fun x => x.1 ≠ c.textPlace

/-- The paragraphs behind the one an edit works on. -/
def Cursor.behind (c : Cursor) (blocks : List Block) : List (Place × Paragraph) :=
  ((places blocks).dropWhile fun x => x.1 ≠ c.textPlace).tail

lemma front_behind_eq {c : Cursor} {blocks : List Block} {p : Paragraph}
    {pre post : List (Place × Paragraph)} (h : places blocks = pre ++ (c.textPlace, p) :: post) :
    c.front blocks = pre ∧ c.behind blocks = post := by
  have hpre : ∀ x ∈ pre, decide (x.1 ≠ c.textPlace) = true := by
    intro x hx
    have hnd := nodup_places blocks
    rw [h, List.map_append, List.map_cons, List.nodup_append] at hnd
    exact decide_eq_true (hnd.2.2 x.1 (List.mem_map_of_mem hx) c.textPlace (by simp))
  rw [Cursor.front, Cursor.behind, h, List.takeWhile_append_of_pos hpre,
    List.dropWhile_append_of_pos hpre]
  simp

/-- Writing a paragraph changes this paragraph of the body and nothing else. -/
lemma places_set_paragraphMut {d : Document} {c : Cursor} {p : Paragraph}
    (h : (paragraphMut c).get? d = some p) :
    places d.blocks = c.front d.blocks ++ (c.textPlace, p) :: c.behind d.blocks ∧
      ∀ p', ∃ blocks, (paragraphMut c).set p' d = { d with blocks } ∧
        places blocks = c.front d.blocks ++ (c.textPlace, p') :: c.behind d.blocks := by
  rw [paragraphMut_eq] at h ⊢
  obtain ⟨pre, post, hpl, hset⟩ := window_paragraphIn c h
  have hpl' : places d.blocks = pre ++ (c.textPlace, p) :: post := by simpa using hpl
  obtain ⟨hfront, hbehind⟩ := front_behind_eq hpl'
  rw [hfront, hbehind]
  refine ⟨hpl', fun p' => ⟨(paragraphIn c).set p' d.blocks, ?_, ?_⟩⟩
  · rw [Focus.set_comp rfl]
    rfl
  · simpa using hset p'

end Orchid.Document
