import Orchid.Document.StyleEdit

/-!
# Exact inverses

When does the command that `applyCommand` gives back restore the document exactly? A command on a
part of the document is undone on the document exactly if it is undone on the part, so each pair of
commands is compared on the part it works on.
-/

namespace Orchid.Document

open Lib
open String (utf8Len)

/-- The inverse leads back to the document it was made for. -/
def Restores (inverse : EditCommand) (after before : Document) : Prop :=
  ∃ j, (applyCommand inverse).run after = .ok j before

/-! ### Conditions -/

/-- A column put in at `atCol`, a cell or none for each row, can be taken out again: no row and no
width list ends before the column, and the table still has another column. -/
structure FitsColumn (t : Table) (atCol : ℕ) (cells : List (Option TableCell))
    (width : Option U32) : Prop where
  rows : ∀ x ∈ t.rows.zip cells,
    if x.2.isSome then atCol ≤ x.1.cells.length else x.1.cells.length ≤ atCol
  widths : if width.isSome then atCol ≤ t.columnWidthsTwips.length
    else t.columnWidthsTwips.length ≤ atCol
  some_cell : ∃ x ∈ t.rows.zip cells, x.2.isSome
  other_column : ∃ x ∈ t.rows.zip cells, 1 < x.1.cells.length + if x.2.isSome then 1 else 0

/-- The cells of a blank column. -/
def blankColumn (t : Table) : List (Option TableCell) := t.rows.map fun _ => some blankCell

/-- The width of a new column, if the table has widths. -/
def blankWidth (t : Table) (atCol : ℕ) : Option U32 :=
  if t.columnWidthsTwips.isEmpty then none else some (neighborWidth t.columnWidthsTwips atCol)

/-- Whether undo restores the document after a successful command. -/
def Undoable (d : Document) : EditCommand → Prop
  | .insertText pos _ => ∀ p, (paragraphMut pos).get? d = some p → p.runs ≠ []
  | .deleteRange range => range.normalized.1.runIdx = range.normalized.2.runIdx
  | .insertTableRow i _ => ∀ t, (bodyTable i).get? d = some t → t.rows ≠ []
  | .restoreTableRow i _ _ => ∀ t, (bodyTable i).get? d = some t → t.rows ≠ []
  | .insertTableColumn i atCol => ∀ t, (bodyTable i).get? d = some t →
    FitsColumn t atCol (blankColumn t) (blankWidth t atCol)
  | .restoreTableColumn i atCol cells width => ∀ t, (bodyTable i).get? d = some t →
    FitsColumn t atCol cells width
  | .removeBlock i => i + 1 = d.blocks.length
  | .removeBookmark name => ∀ b ∈ d.bookmarks.dropLast, b.name ≠ name
  | .addComment comment range => range.id = comment.id ∧
    ∀ r ∈ d.commentRanges.dropWhile (fun r => r.id ≠ comment.id), r = range
  | .removeComment id => (∀ c ∈ d.comments.dropLast, c.id ≠ id) ∧
    ∀ r ∈ d.commentRanges.dropWhile (fun r => r.id ≠ id),
      d.commentRanges.find? (fun r => r.id = id) = some r
  | _ => True

/-! ### Parts -/

/-- Undo on a part is undo on the document. -/
lemma restores_iff {α : Type} {f : Focus Document α} {x : Edit α EditCommand}
    {inverse : EditCommand} {d : Document} {a : α} (hget : f.get? d = some a)
    (hinv : applyCommand inverse = f.borrow .editOutOfBounds x) (a' : α) :
    Restores inverse (f.set a' d) d ↔ ∃ j, x.run a' = .ok j a := by
  rw [Restores, hinv]
  exact exists_congr fun j => f.borrow_set_eq_ok_iff hget a' j

/-! ### Tables -/

lemma lt_maxCols_iff {t : Table} {k : ℕ} : k < t.maxCols ↔ ∃ r ∈ t.rows, k < r.cells.length := by
  unfold Table.maxCols
  cases hmax : (t.rows.map fun r => r.cells.length).max? with
  | none =>
    have hrows : t.rows = [] := by simpa using List.max?_eq_none_iff.mp hmax
    simp [hrows]
  | some m =>
    obtain ⟨hmem, hle⟩ := List.max?_eq_some_iff.mp hmax
    obtain ⟨r, hr, rfl⟩ := List.mem_map.mp hmem
    constructor
    · exact fun hk => ⟨r, hr, hk⟩
    · rintro ⟨r', hr', hk⟩
      exact lt_of_lt_of_le hk (hle _ (List.mem_map_of_mem hr'))

/-- The table without a column. -/
def eraseColumn (t : Table) (colIdx : ℕ) : Table :=
  { t with
    rows := t.rows.map (TableRow.mapCells (List.eraseIdx · colIdx))
    columnWidthsTwips := t.columnWidthsTwips.eraseIdx colIdx }

lemma deleteTableColumn_eq_ok_iff {i colIdx : ℕ} {t t' : Table} :
    (∃ j, (deleteTableColumn i colIdx).run t = .ok j t') ↔
      (1 < t.maxCols ∧ colIdx < t.maxCols) ∧
      t' = eraseColumn t colIdx := by
  by_cases h : t.maxCols ≤ 1 ∨ colIdx ≥ t.maxCols
  · have : ¬ (1 < t.maxCols ∧ colIdx < t.maxCols) := by omega
    simp [deleteTableColumn, h, this]
  · have : 1 < t.maxCols ∧ colIdx < t.maxCols := by omega
    simp [deleteTableColumn, eraseColumn, h, this, eq_comm]

/-- The table with a column put in. -/
def addColumn (t : Table) (atCol : ℕ) (cells : List (Option TableCell)) (width : Option U32) :
    Table :=
  { t with
    rows := List.zipWith (fun r c => TableRow.mapCells (insertOption atCol c) r) t.rows cells
    columnWidthsTwips := insertOption atCol width t.columnWidthsTwips }

lemma rows_addColumn_erase_iff {atCol : ℕ} {rows : List TableRow} {cells : List (Option TableCell)}
    (hlen : cells.length = rows.length) :
    (List.zipWith (fun r c => TableRow.mapCells (insertOption atCol c) r) rows cells).map
        (TableRow.mapCells (List.eraseIdx · atCol)) = rows ↔
      ∀ x ∈ rows.zip cells,
        if x.2.isSome then atCol ≤ x.1.cells.length else x.1.cells.length ≤ atCol := by
  induction rows generalizing cells with
  | nil => simp
  | cons r rows ih =>
    cases cells with
    | nil => simp at hlen
    | cons c cells =>
      have hr : TableRow.mapCells (List.eraseIdx · atCol) (TableRow.mapCells (insertOption atCol c) r)
          = r ↔ (insertOption atCol c r.cells).eraseIdx atCol = r.cells := by
        obtain ⟨cells⟩ := r
        simp [TableRow.mapCells]
      rw [List.zipWith_cons_cons, List.map_cons, List.cons.injEq, ih (by simpa using hlen), hr,
        eraseIdx_insertOption_iff, List.zip_cons_cons]
      simp

lemma lt_maxCols_addColumn_iff {t : Table} {atCol k : ℕ} {cells : List (Option TableCell)}
    {width : Option U32} : k < (addColumn t atCol cells width).maxCols ↔
      ∃ x ∈ t.rows.zip cells, k < x.1.cells.length + if x.2.isSome then 1 else 0 := by
  rw [lt_maxCols_iff, addColumn, ← List.map_uncurry_zip_eq_zipWith]
  simp [TableRow.mapCells, length_insertOption]

/-- Taking out the column that was put in. -/
lemma deleteTableColumn_addColumn_iff {i : ℕ} {t : Table} {atCol : ℕ}
    {cells : List (Option TableCell)} {width : Option U32} (hlen : cells.length = t.rows.length) :
    (∃ j, (deleteTableColumn i atCol).run (addColumn t atCol cells width) = .ok j t) ↔
      FitsColumn t atCol cells width := by
  rw [deleteTableColumn_eq_ok_iff, lt_maxCols_addColumn_iff, lt_maxCols_addColumn_iff]
  have heq : t = eraseColumn (addColumn t atCol cells width) atCol ↔
      (∀ x ∈ t.rows.zip cells,
        if x.2.isSome then atCol ≤ x.1.cells.length else x.1.cells.length ≤ atCol) ∧
      if width.isSome then atCol ≤ t.columnWidthsTwips.length
        else t.columnWidthsTwips.length ≤ atCol := by
    rw [← rows_addColumn_erase_iff hlen, ← eraseIdx_insertOption_iff]
    obtain ⟨rows, widths, unsupported⟩ := t
    simp [addColumn, eraseColumn, eq_comm (a := rows), eq_comm (a := widths)]
  rw [heq]
  constructor
  · rintro ⟨⟨hother, x, hx, hlt⟩, hrows, hwidths⟩
    refine ⟨hrows, hwidths, ⟨x, hx, ?_⟩, hother⟩
    by_contra hnone
    have := hrows x hx
    simp only [hnone, if_false] at this hlt
    omega
  · rintro ⟨hrows, hwidths, ⟨x, hx, hsome⟩, hother⟩
    refine ⟨⟨hother, x, hx, ?_⟩, hrows, hwidths⟩
    have := hrows x hx
    simp only [hsome, if_true] at this ⊢
    omega

/-! ### Commands on one part -/

section Commands

variable {d d' : Document} {inverse : EditCommand} {i : ℕ}

/-- A part that is replaced whole. -/
lemma restores_replace {α : Type} {f : Focus Document α} {new : α} {inv : α → EditCommand}
    (hinv : ∀ a, applyCommand (inv a) = f.borrow .editOutOfBounds (replace a inv))
    (h : (f.borrow .editOutOfBounds (replace new inv)).run d = .ok inverse d') :
    Restores inverse d' d := by
  obtain ⟨a, a', hget, hrun, rfl⟩ := (f.borrow_eq_ok).mp h
  obtain ⟨rfl, rfl⟩ : inv a = inverse ∧ new = a' := by simpa [replace] using hrun
  exact (restores_iff hget (hinv a) new).mpr ⟨inv new, by simp [replace]⟩

/-- A body paragraph that is changed after its old value was put in the inverse. -/
lemma restores_replaceParagraph {x : Edit Paragraph EditCommand} {g : Paragraph → Paragraph}
    (hx : ∀ p, x.run p = .ok (.replaceParagraph i p) (g p))
    (h : ((bodyParagraph i).borrow .editOutOfBounds x).run d = .ok inverse d') :
    Restores inverse d' d := by
  obtain ⟨p, p', hget, hrun, rfl⟩ := (bodyParagraph i).borrow_eq_ok.mp h
  rw [hx, EStateM.Result.ok.injEq] at hrun
  obtain ⟨rfl, rfl⟩ := hrun
  exact (restores_iff hget (by rw [applyCommand]) (g p)).mpr
    ⟨.replaceParagraph i (g p), by simp [replace]⟩

lemma restores_setSectionPageSetup {setup : PageSetup}
    (h : (applyCommand (.setSectionPageSetup i setup)).run d = .ok inverse d') :
    Restores inverse d' d := by
  rw [applyCommand] at h
  obtain ⟨p, p', hget, hrun, rfl⟩ := (bodyParagraph i).borrow_eq_ok.mp h
  cases hsec : p.sectionProperties with
  | none => simp [setSectionPageSetup, hsec] at hrun
  | some previous =>
    obtain ⟨rfl, rfl⟩ : .setSectionPageSetup i previous = inverse ∧
        { p with sectionProperties := some setup } = p' := by
      simpa [setSectionPageSetup, hsec] using hrun
    refine (restores_iff hget (by rw [applyCommand]) _).mpr ⟨.setSectionPageSetup i setup, ?_⟩
    simp [setSectionPageSetup, ← hsec]

lemma restores_insertBlock {idx : ℕ} {block : Block}
    (h : (blocksOf.borrow .editOutOfBounds (insertBlock idx block)).run d = .ok inverse d') :
    Restores inverse d' d := by
  obtain ⟨blocks, blocks', hget, hrun, rfl⟩ := blocksOf.borrow_eq_ok.mp h
  obtain ⟨rfl, rfl⟩ : .removeBlock (min idx blocks.length) = inverse ∧
      blocks.insertIdx (min idx blocks.length) block = blocks' := by
    simpa [insertBlock] using hrun
  refine (restores_iff hget (by rw [applyCommand]) _).mpr ⟨.replaceBlock (min idx blocks.length) block, ?_⟩
  simp [removeBlock, List.getElem?_insertIdx_self, List.eraseIdx_insertIdx_self]

/-- The block is put back by overwriting: only the last one comes back. -/
lemma restores_removeBlock_iff
    (h : (applyCommand (.removeBlock i)).run d = .ok inverse d') :
    Restores inverse d' d ↔ i + 1 = d.blocks.length := by
  rw [applyCommand] at h
  obtain ⟨blocks, blocks', hget, hrun, rfl⟩ := blocksOf.borrow_eq_ok.mp h
  obtain rfl : d.blocks = blocks := by simpa [blocksOf, Focus.field] using hget
  cases hi : d.blocks[i]? with
  | none => simp [removeBlock, hi] at hrun
  | some previous =>
    obtain ⟨rfl, rfl⟩ : .replaceBlock i previous = inverse ∧ d.blocks.eraseIdx i = blocks' := by
      simpa [removeBlock, hi] using hrun
    obtain ⟨hlt, rfl⟩ := List.getElem?_eq_some_iff.mp hi
    have hlen := List.length_eraseIdx_of_lt hlt
    rw [restores_iff hget (by rw [applyCommand])]
    by_cases hlast : i + 1 = d.blocks.length
    · have hnone : (d.blocks.eraseIdx i)[i]? = none := List.getElem?_eq_none (by omega)
      have hback : d.blocks.eraseIdx i ++ [d.blocks[i]] = d.blocks := by
        have hend : (d.blocks.eraseIdx i).length = i := by omega
        rw [← List.insertIdx_length_self, hend]
        exact List.insertIdx_eraseIdx_getElem hlt
      have hle : ¬ i > (d.blocks.eraseIdx i).length := by omega
      simp [replaceBlock, hnone, hback, hlast, hle]
    · obtain ⟨next, hnext⟩ : ∃ next, (d.blocks.eraseIdx i)[i]? = some next :=
        ⟨_, List.getElem?_eq_getElem (by omega)⟩
      have hne : (d.blocks.eraseIdx i).set i d.blocks[i] ≠ d.blocks := by
        intro heq
        have := congrArg List.length heq
        rw [List.length_set] at this
        omega
      have hle : ¬ i > (d.blocks.eraseIdx i).length := by omega
      simp [replaceBlock, hnext, hne, hlast, hle]

lemma restores_replaceBlock {block : Block}
    (h : (applyCommand (.replaceBlock i block)).run d = .ok inverse d') :
    Restores inverse d' d := by
  rw [applyCommand] at h
  obtain ⟨blocks, blocks', hget, hrun, rfl⟩ := blocksOf.borrow_eq_ok.mp h
  by_cases hgt : i > blocks.length
  · simp [replaceBlock, hgt] at hrun
  · cases hi : blocks[i]? with
    | none =>
      obtain ⟨rfl, rfl⟩ : .removeBlock i = inverse ∧ blocks ++ [block] = blocks' := by
        simpa [replaceBlock, hi, hgt] using hrun
      obtain rfl : i = blocks.length := by
        have := List.getElem?_eq_none_iff.mp hi
        omega
      refine (restores_iff hget (by rw [applyCommand]) _).mpr ⟨.replaceBlock blocks.length block, ?_⟩
      simp [removeBlock, List.eraseIdx_append_of_length_le]
    | some current =>
      obtain ⟨rfl, rfl⟩ : .replaceBlock i current = inverse ∧ blocks.set i block = blocks' := by
        simpa [replaceBlock, hi, hgt] using hrun
      obtain ⟨hlt, rfl⟩ := List.getElem?_eq_some_iff.mp hi
      refine (restores_iff hget (by rw [applyCommand]) _).mpr ⟨.replaceBlock i block, ?_⟩
      have : ¬ i > blocks.length := by omega
      simp [replaceBlock, this, hlt]

/-- A style edit touches the body only, and the whole body is kept. -/
lemma restores_setRunStyle {range : Selection} {style : RunStylePatch}
    (h : (applyCommand (.setRunStyle range style)).run d = .ok inverse d') :
    Restores inverse d' d := by
  rw [applyCommand] at h
  obtain ⟨_, _, hread, happ⟩ := Run.bind_eq_ok.mp h
  cases hread
  obtain ⟨_, u, hstyle, hret⟩ := Run.bind_eq_ok.mp happ
  obtain ⟨rfl, rfl⟩ : .replaceBlocks d.blocks = inverse ∧ u = d' := by simpa using hret
  obtain ⟨blocks, rfl, -⟩ := relates_applySetRunStyle range style hstyle
  exact (restores_iff (f := blocksOf) rfl (by rw [applyCommand]) blocks).mpr
    ⟨.replaceBlocks blocks, by simp [replace]⟩

/-! ### Table rows and columns -/

lemma exists_deleteTableRow_iff {rowIdx : ℕ} {t t' : Table} :
    (∃ j, (deleteTableRow i rowIdx).run t = .ok j t') ↔
      rowIdx < t.rows.length ∧ 1 < t.rows.length ∧ { t with rows := t.rows.eraseIdx rowIdx } = t' := by
  cases hrow : t.rows[rowIdx]? with
  | none =>
    have := List.getElem?_eq_none_iff.mp hrow
    simp [deleteTableRow, this]
  | some row =>
    obtain ⟨hlt, -⟩ := List.getElem?_eq_some_iff.mp hrow
    by_cases h1 : t.rows.length ≤ 1
    · simp [deleteTableRow, h1, hlt]
    · simp [deleteTableRow, h1, hlt]
      omega

/-- A row put in is taken out again unless it is the only one. -/
lemma exists_deleteTableRow_insertIdx_iff {idx : ℕ} {t : Table} {row : TableRow}
    (hidx : idx ≤ t.rows.length) :
    (∃ j, (deleteTableRow i idx).run { t with rows := t.rows.insertIdx idx row } = .ok j t) ↔
      t.rows ≠ [] := by
  rw [exists_deleteTableRow_iff]
  simp only [List.length_insertIdx_of_le_length hidx, List.eraseIdx_insertIdx_self, and_true,
    Nat.lt_succ_of_le hidx, true_and]
  rw [← List.length_pos_iff]
  omega

lemma restores_insertTableRow_iff {atRow : ℕ}
    (h : (applyCommand (.insertTableRow i atRow)).run d = .ok inverse d') :
    Restores inverse d' d ↔ ∀ t, (bodyTable i).get? d = some t → t.rows ≠ [] := by
  rw [applyCommand] at h
  obtain ⟨t, t', hget, hrun, rfl⟩ := (bodyTable i).borrow_eq_ok.mp h
  simp only [insertTableRow, EStateM.run_bind, EStateM.run_get, EStateM.run_set, EStateM.run_pure,
    EStateM.Result.ok.injEq] at hrun
  obtain ⟨rfl, rfl⟩ := hrun
  rw [restores_iff hget (by rw [applyCommand]), exists_deleteTableRow_insertIdx_iff (Nat.min_le_right _ _)]
  simp [hget]

lemma restores_restoreTableRow_iff {atRow : ℕ} {row : TableRow}
    (h : (applyCommand (.restoreTableRow i atRow row)).run d = .ok inverse d') :
    Restores inverse d' d ↔ ∀ t, (bodyTable i).get? d = some t → t.rows ≠ [] := by
  rw [applyCommand] at h
  obtain ⟨t, t', hget, hrun, rfl⟩ := (bodyTable i).borrow_eq_ok.mp h
  simp only [restoreTableRow, EStateM.run_bind, EStateM.run_get, EStateM.run_set, EStateM.run_pure,
    EStateM.Result.ok.injEq] at hrun
  obtain ⟨rfl, rfl⟩ := hrun
  rw [restores_iff hget (by rw [applyCommand]), exists_deleteTableRow_insertIdx_iff (Nat.min_le_right _ _)]
  simp [hget]

lemma restores_deleteTableRow {rowIdx : ℕ}
    (h : (applyCommand (.deleteTableRow i rowIdx)).run d = .ok inverse d') :
    Restores inverse d' d := by
  rw [applyCommand] at h
  obtain ⟨t, t', hget, hrun, rfl⟩ := (bodyTable i).borrow_eq_ok.mp h
  obtain ⟨hlt, h1, rfl⟩ := exists_deleteTableRow_iff.mp ⟨_, hrun⟩
  obtain rfl : .restoreTableRow i rowIdx t.rows[rowIdx] = inverse := by
    have hcond : ¬ t.rows.length ≤ 1 := by omega
    simpa [deleteTableRow, hlt, hcond] using hrun
  refine (restores_iff hget (by rw [applyCommand]) _).mpr ⟨.deleteTableRow i rowIdx, ?_⟩
  have hmin : min rowIdx (t.rows.eraseIdx rowIdx).length = rowIdx := by
    rw [List.length_eraseIdx_of_lt hlt]
    omega
  simp [restoreTableRow, hmin, List.insertIdx_eraseIdx_getElem hlt]

lemma insertTableColumn_run {atCol : ℕ} {t : Table} (ht : t.rows ≠ []) :
    (insertTableColumn i atCol).run t =
      .ok (.deleteTableColumn i atCol) (addColumn t atCol (blankColumn t) (blankWidth t atCol)) := by
  have hrows : List.zipWith (fun r c => TableRow.mapCells (insertOption atCol c) r) t.rows
      (blankColumn t) = t.rows.map (TableRow.mapCells (insertClamped atCol blankCell)) := by
    rw [blankColumn, List.zipWith_map_right, List.zipWith_self]
    rfl
  have hwidths : insertOption atCol (blankWidth t atCol) t.columnWidthsTwips =
      if t.columnWidthsTwips.isEmpty then t.columnWidthsTwips
      else insertClamped atCol (neighborWidth t.columnWidthsTwips atCol) t.columnWidthsTwips := by
    unfold blankWidth
    split_ifs <;> rfl
  simp [insertTableColumn, ht, addColumn, hrows, hwidths]

lemma restores_insertTableColumn_iff {atCol : ℕ}
    (h : (applyCommand (.insertTableColumn i atCol)).run d = .ok inverse d') :
    Restores inverse d' d ↔ ∀ t, (bodyTable i).get? d = some t →
      FitsColumn t atCol (blankColumn t) (blankWidth t atCol) := by
  rw [applyCommand] at h
  obtain ⟨t, t', hget, hrun, rfl⟩ := (bodyTable i).borrow_eq_ok.mp h
  by_cases ht : t.rows = []
  · simp [insertTableColumn, ht] at hrun
  · rw [insertTableColumn_run ht, EStateM.Result.ok.injEq] at hrun
    obtain ⟨rfl, rfl⟩ := hrun
    rw [restores_iff hget (by rw [applyCommand]), deleteTableColumn_addColumn_iff (by simp [blankColumn])]
    simp [hget]

lemma restores_restoreTableColumn_iff {atCol : ℕ} {cells : List (Option TableCell)}
    {width : Option U32}
    (h : (applyCommand (.restoreTableColumn i atCol cells width)).run d = .ok inverse d') :
    Restores inverse d' d ↔
      ∀ t, (bodyTable i).get? d = some t → FitsColumn t atCol cells width := by
  rw [applyCommand] at h
  obtain ⟨t, t', hget, hrun, rfl⟩ := (bodyTable i).borrow_eq_ok.mp h
  by_cases hlen : cells.length = t.rows.length
  · obtain ⟨rfl, rfl⟩ : .deleteTableColumn i atCol = inverse ∧
        addColumn t atCol cells width = t' := by
      simpa [restoreTableColumn, hlen, addColumn] using hrun
    rw [restores_iff hget (by rw [applyCommand]), deleteTableColumn_addColumn_iff hlen]
    simp [hget]
  · simp [restoreTableColumn, hlen] at hrun

lemma restores_deleteTableColumn {colIdx : ℕ}
    (h : (applyCommand (.deleteTableColumn i colIdx)).run d = .ok inverse d') :
    Restores inverse d' d := by
  rw [applyCommand] at h
  obtain ⟨t, t', hget, hrun, rfl⟩ := (bodyTable i).borrow_eq_ok.mp h
  obtain ⟨⟨h1, hlt⟩, rfl⟩ := deleteTableColumn_eq_ok_iff.mp ⟨_, hrun⟩
  obtain rfl : .restoreTableColumn i colIdx (t.rows.map fun r => r.cells[colIdx]?)
      t.columnWidthsTwips[colIdx]? = inverse := by
    have hcond : ¬ (t.maxCols ≤ 1 ∨ colIdx ≥ t.maxCols) := by omega
    simpa [deleteTableColumn, eraseColumn, hcond] using hrun
  refine (restores_iff hget (by rw [applyCommand]) _).mpr ⟨.deleteTableColumn i colIdx, ?_⟩
  have hrows : List.zipWith (fun r c => TableRow.mapCells (insertOption colIdx c) r)
      (t.rows.map (TableRow.mapCells (List.eraseIdx · colIdx)))
      (t.rows.map fun r => r.cells[colIdx]?) = t.rows := by
    rw [List.zipWith_map, List.zipWith_self]
    refine (List.map_congr_left fun r _ => ?_).trans (List.map_id' t.rows)
    obtain ⟨cells⟩ := r
    simp [TableRow.mapCells, insertOption_eraseIdx]
  simp [restoreTableColumn, eraseColumn, hrows, insertOption_eraseIdx]

/-! ### Cell images -/

lemma restores_insertCellImage {row col imageIdx : ℕ} {image : CellImage}
    (h : (applyCommand (.insertCellImage i row col imageIdx image)).run d = .ok inverse d') :
    Restores inverse d' d := by
  rw [applyCommand] at h
  obtain ⟨cell, cell', hget, hrun, rfl⟩ := (bodyCell i row col).borrow_eq_ok.mp h
  simp only [insertCellImage, EStateM.run_bind, EStateM.run_get, EStateM.run_set, EStateM.run_pure,
    EStateM.Result.ok.injEq] at hrun
  obtain ⟨rfl, rfl⟩ := hrun
  refine (restores_iff hget (by rw [applyCommand]) _).mpr
    ⟨.insertCellImage i row col (min imageIdx cell.images.length) image, ?_⟩
  simp [removeCellImage, List.getElem?_insertIdx_self, List.eraseIdx_insertIdx_self]

lemma restores_removeCellImage {row col imageIdx : ℕ}
    (h : (applyCommand (.removeCellImage i row col imageIdx)).run d = .ok inverse d') :
    Restores inverse d' d := by
  rw [applyCommand] at h
  obtain ⟨cell, cell', hget, hrun, rfl⟩ := (bodyCell i row col).borrow_eq_ok.mp h
  cases himg : cell.images[imageIdx]? with
  | none => simp [removeCellImage, himg] at hrun
  | some image =>
    obtain ⟨rfl, rfl⟩ : .insertCellImage i row col imageIdx image = inverse ∧
        { cell with images := cell.images.eraseIdx imageIdx } = cell' := by
      simpa [removeCellImage, himg] using hrun
    obtain ⟨hlt, rfl⟩ := List.getElem?_eq_some_iff.mp himg
    refine (restores_iff hget (by rw [applyCommand]) _).mpr ⟨.removeCellImage i row col imageIdx, ?_⟩
    have hmin : min imageIdx (cell.images.eraseIdx imageIdx).length = imageIdx := by
      rw [List.length_eraseIdx_of_lt hlt]
      omega
    simp [insertCellImage, hmin, List.insertIdx_eraseIdx_getElem hlt]

/-! ### Bookmarks and comments -/

lemma removeFirst_eq_ok_iff {α : Type} {p : α → Bool} {l l' : List α} {a : α} :
    (removeFirst p).run l = .ok a l' ↔ l.find? p = some a ∧ l.eraseP p = l' := by
  cases h : l.find? p with
  | none => simp [removeFirst, h]
  | some b => simp [removeFirst, h]

lemma addBookmark_eq_ok_iff {b : Bookmark} {l l' : List Bookmark} {j : EditCommand} :
    (addBookmark b).run l = .ok j l' ↔
      (∀ x ∈ l, x.name ≠ b.name) ∧ .removeBookmark b.name = j ∧ l ++ [b] = l' := by
  by_cases h : ∃ x ∈ l, x.name = b.name
  · simp [addBookmark, h]
  · have h' : ∀ x ∈ l, x.name ≠ b.name := by simpa using h
    simpa [addBookmark, h] using fun _ _ => h'

lemma restores_addBookmark {b : Bookmark}
    (h : (applyCommand (.addBookmark b)).run d = .ok inverse d') : Restores inverse d' d := by
  rw [applyCommand] at h
  obtain ⟨l, l', hget, hrun, rfl⟩ := bookmarksOf.borrow_eq_ok.mp h
  obtain ⟨hname, rfl, rfl⟩ := addBookmark_eq_ok_iff.mp hrun
  refine (restores_iff hget (by rw [applyCommand]) _).mpr ⟨.addBookmark b, ?_⟩
  have hout : ((l ++ [b]).find? fun x => x.name = b.name).isSome ∧
      (l ++ [b]).eraseP (fun x => x.name = b.name) = l :=
    eraseP_concat_eq_iff.mpr ⟨by simp, by
      have hdrop : l.dropWhile (fun x => !decide (x.name = b.name)) = [] := by
        rw [List.dropWhile_eq_nil_iff]
        simpa using hname
      simp [hdrop]⟩
  have hfind : (l ++ [b]).find? (fun x => x.name = b.name) = some b := by
    rw [List.find?_append, List.find?_eq_none.mpr (by simpa using hname)]
    simp
  have hrem : (removeFirst fun x : Bookmark => x.name = b.name).run (l ++ [b]) = .ok b l :=
    removeFirst_eq_ok_iff.mpr ⟨hfind, hout.2⟩
  simp [hrem]

/-- An entry that is taken out and put at the end, where no like entry may be, comes back exactly
if it was the last. -/
lemma concat_eraseP_eq_iff_last {α : Type} {p : α → Bool} {l : List α} {a : α}
    (h : l.find? p = some a) :
    ((∀ x ∈ l.eraseP p, ¬ p x) ∧ l.eraseP p ++ [a] = l) ↔ ∀ x ∈ l.dropLast, ¬ p x := by
  constructor
  · rintro ⟨hnot, heq⟩
    rw [← heq, List.dropLast_concat]
    exact hnot
  · intro hnot
    rcases List.eq_nil_or_concat l with rfl | ⟨pre, b, rfl⟩
    · simp at h
    · rw [List.concat_eq_append, List.dropLast_concat] at hnot
      have herase : (pre ++ [b]).eraseP p = pre ∧ b = a := by
        rw [List.concat_eq_append, List.find?_append, List.find?_eq_none.mpr hnot] at h
        have hb : p b = true ∧ b = a := by simpa using h
        rw [List.eraseP_append_right _ hnot]
        exact ⟨by simp [hb.1], hb.2⟩
      rw [List.concat_eq_append, herase.1, herase.2]
      exact ⟨hnot, rfl⟩

lemma restores_removeBookmark_iff {name : Text}
    (h : (applyCommand (.removeBookmark name)).run d = .ok inverse d') :
    Restores inverse d' d ↔ ∀ b ∈ d.bookmarks.dropLast, b.name ≠ name := by
  rw [applyCommand] at h
  obtain ⟨l, l', hget, hrun, rfl⟩ := bookmarksOf.borrow_eq_ok.mp h
  obtain rfl : d.bookmarks = l := by simpa [bookmarksOf, Focus.field] using hget
  obtain ⟨b, l₁, hrem, hret⟩ := Run.bind_eq_ok.mp hrun
  obtain ⟨hfind, rfl⟩ := removeFirst_eq_ok_iff.mp hrem
  obtain ⟨rfl, rfl⟩ : .addBookmark b = inverse ∧
      d.bookmarks.eraseP (fun b => b.name = name) = l' := by simpa using hret
  have hname : b.name = name := by simpa using List.find?_some hfind
  rw [restores_iff hget (by rw [applyCommand])]
  simp only [addBookmark_eq_ok_iff, hname]
  have hlast := concat_eraseP_eq_iff_last hfind
  simp only [decide_eq_true_eq] at hlast
  rw [← hlast]
  simp

lemma addComment_eq_ok_iff {c : DocComment} {r : CommentRange} {j : EditCommand} :
    (addComment c r).run d = .ok j d' ↔
      (∀ x ∈ d.comments, x.id ≠ c.id) ∧ .removeComment c.id = j ∧
      { d with comments := d.comments ++ [c], commentRanges := d.commentRanges ++ [r] } = d' := by
  by_cases h : ∃ x ∈ d.comments, x.id = c.id
  · simp [addComment, commentsOf, commentRangesOf, Focus.field, Focus.run_borrow, h]
  · have h' : ∀ x ∈ d.comments, x.id ≠ c.id := by simpa using h
    simpa [addComment, commentsOf, commentRangesOf, Focus.field, Focus.run_borrow, h] using
      fun _ _ => h'

lemma removeComment_eq_ok_iff {id : U32} {j : EditCommand} :
    (removeComment id).run d = .ok j d' ↔
      ∃ c r, d.comments.find? (fun c => c.id = id) = some c ∧
        d.commentRanges.find? (fun r => r.id = id) = some r ∧ .addComment c r = j ∧
        { d with
          comments := d.comments.eraseP fun c => c.id = id
          commentRanges := d.commentRanges.eraseP fun r => r.id = id } = d' := by
  cases hc : d.comments.find? (fun c => c.id = id) with
  | none =>
    simp [removeComment, removeFirst, commentsOf, commentRangesOf, Focus.field, Focus.run_borrow, hc]
  | some c =>
    cases hr : d.commentRanges.find? (fun r => r.id = id) with
    | none =>
      simp [removeComment, removeFirst, commentsOf, commentRangesOf, Focus.field, Focus.run_borrow,
        hc, hr]
    | some r =>
      simp [removeComment, removeFirst, commentsOf, commentRangesOf, Focus.field, Focus.run_borrow,
        hc, hr]

lemma restores_addComment_iff {c : DocComment} {r : CommentRange}
    (h : (applyCommand (.addComment c r)).run d = .ok inverse d') :
    Restores inverse d' d ↔ r.id = c.id ∧
      ∀ x ∈ d.commentRanges.dropWhile (fun x => x.id ≠ c.id), x = r := by
  rw [applyCommand] at h
  obtain ⟨hid, rfl, rfl⟩ := addComment_eq_ok_iff.mp h
  have hfind : (d.comments ++ [c]).find? (fun x => x.id = c.id) = some c := by
    rw [List.find?_append, List.find?_eq_none.mpr (by simpa using hid)]
    simp
  have herase : (d.comments ++ [c]).eraseP (fun x => x.id = c.id) = d.comments := by
    rw [List.eraseP_append_right _ (by simpa using hid)]
    simp
  have hranges : ((d.commentRanges ++ [r]).find? fun x => x.id = c.id).isSome ∧
      (d.commentRanges ++ [r]).eraseP (fun x => x.id = c.id) = d.commentRanges ↔
      r.id = c.id ∧ ∀ x ∈ d.commentRanges.dropWhile (fun x => x.id ≠ c.id), x = r := by
    simpa using eraseP_concat_eq_iff (p := fun x : CommentRange => x.id = c.id) (b := r)
      (l := d.commentRanges)
  rw [Restores, applyCommand, ← hranges]
  simp only [removeComment_eq_ok_iff, hfind, herase]
  constructor
  · rintro ⟨j, c', r', -, hr', -, heq⟩
    exact ⟨by simp [hr'], congrArg Document.commentRanges heq⟩
  · rintro ⟨hsome, heq⟩
    obtain ⟨r', hr'⟩ := Option.isSome_iff_exists.mp hsome
    exact ⟨_, c, r', rfl, hr', rfl, by rw [heq]⟩

lemma restores_removeComment_iff {id : U32}
    (h : (applyCommand (.removeComment id)).run d = .ok inverse d') :
    Restores inverse d' d ↔ (∀ c ∈ d.comments.dropLast, c.id ≠ id) ∧
      ∀ r ∈ d.commentRanges.dropWhile (fun r => r.id ≠ id),
        d.commentRanges.find? (fun r => r.id = id) = some r := by
  rw [applyCommand] at h
  obtain ⟨c, r, hc, hr, rfl, rfl⟩ := removeComment_eq_ok_iff.mp h
  have hcid : c.id = id := by simpa using List.find?_some hc
  have hlast := concat_eraseP_eq_iff_last hc
  have hranges := eraseP_concat_self_iff hr
  simp only [decide_eq_true_eq] at hlast
  rw [Restores, applyCommand, ← hlast]
  have hrest : (∀ x ∈ d.commentRanges.dropWhile (fun r => r.id ≠ id),
      d.commentRanges.find? (fun r => r.id = id) = some x) ↔
      d.commentRanges.eraseP (fun r => r.id = id) ++ [r] = d.commentRanges := by
    rw [hranges, hr]
    simp [eq_comm]
  rw [hrest]
  simp only [addComment_eq_ok_iff, hcid]
  constructor
  · rintro ⟨j, hnot, -, heq⟩
    exact ⟨⟨hnot, congrArg Document.comments heq⟩, congrArg Document.commentRanges heq⟩
  · rintro ⟨⟨hnot, hcomments⟩, hcr⟩
    exact ⟨_, hnot, rfl, by rw [hcomments, hcr]⟩

lemma restores_updateCommentText {id : U32} {text : Text}
    (h : (applyCommand (.updateCommentText id text)).run d = .ok inverse d') :
    Restores inverse d' d := by
  rw [applyCommand] at h
  obtain ⟨l, l', hget, hrun, rfl⟩ := commentsOf.borrow_eq_ok.mp h
  cases hfound : l[l.findIdx fun c => c.id = id]? with
  | none => simp [updateCommentText, hfound] at hrun
  | some comment =>
    obtain ⟨rfl, rfl⟩ : .updateCommentText id comment.text = inverse ∧
        l.set (l.findIdx fun c => c.id = id) { comment with text } = l' := by
      simpa [updateCommentText, hfound] using hrun
    obtain ⟨hlt, hget'⟩ := List.getElem?_eq_some_iff.mp hfound
    have hfirst := (List.findIdx_eq hlt).mp rfl
    rw [hget'] at hfirst
    -- the changed comment is still the first one with its id
    have hidx : (l.set (l.findIdx fun c => c.id = id) { comment with text }).findIdx
        (fun c => c.id = id) = l.findIdx fun c => c.id = id := by
      rw [List.findIdx_eq (by simpa using hlt)]
      refine ⟨by simpa using hfirst.1, fun k hk => ?_⟩
      rw [List.getElem_set_of_ne (by omega)]
      exact hfirst.2 k hk
    refine (restores_iff hget (by rw [applyCommand]) _).mpr ⟨.updateCommentText id text, ?_⟩
    have hback : l.set (l.findIdx fun c => c.id = id) comment = l := by
      rw [← hget']
      exact List.set_getElem_self hlt
    simp [updateCommentText, hidx, hlt, hback]

/-! ### Text -/

/-- Undoing by a deletion behind a cursor is undoing on the paragraph. -/
lemma restores_deleteRange_after_iff {pos : Cursor} {n : ℕ} {p p' : Paragraph}
    (hp : paragraphRef d.blocks pos = some p) :
    Restores (.deleteRange ⟨pos, { pos with byteOffset := pos.byteOffset + n }⟩)
        ((paragraphMut pos).set p' d) d ↔
      (∃ t, extractFromParagraph pos { pos with byteOffset := pos.byteOffset + n } p' = .ok t) ∧
        (deleteInParagraph pos { pos with byteOffset := pos.byteOffset + n }).run p' = .ok () p := by
  rw [← get?_paragraphMut] at hp
  have hp' := (paragraphMut pos).get?_set p' hp
  rw [get?_paragraphMut] at hp'
  simp only [Restores, deleteRange_eq_ok_iff (normalized_after pos n), hp', Option.some.injEq]
  constructor
  · rintro ⟨j, -, q, q', t, rfl, ht, -, hdel, hset⟩
    obtain rfl := ((paragraphMut pos).set_set_eq_iff hp p' q').mp hset
    exact ⟨⟨t, ht⟩, hdel⟩
  · rintro ⟨⟨t, ht⟩, hdel⟩
    exact ⟨_, by simp [Cursor.sameParagraph], p', p, t, rfl, ht, rfl, hdel,
      ((paragraphMut pos).set_set_eq_iff hp p' p).mpr rfl⟩

/-- Deleting inside one run and inserting keep the number of runs of a paragraph that has any. -/
lemma length_runs_deleteInParagraph {start stop : Cursor} {p p' : Paragraph}
    (h : start.runIdx = stop.runIdx) (hok : (deleteInParagraph start stop).run p = .ok () p') :
    p'.runs.length = p.runs.length := by
  obtain ⟨run, u, s, w, -, -, -, -, rfl⟩ := (deleteInParagraph_eq_ok_iff h).mp hok
  rw [Paragraph.runs_withRuns, List.length_set]

lemma length_runs_insertTextInParagraph {pos : Cursor} {text : Text} {p p' : Paragraph}
    (h : p.runs ≠ []) (hok : (insertTextInParagraph pos text).run p = .ok () p') :
    p'.runs.length = p.runs.length := by
  obtain ⟨run, u, v, -, -, -, rfl⟩ := (insertTextInParagraph_eq_ok_iff h).mp hok
  rw [Paragraph.runs_withRuns, List.length_set]

/-- The bytes that were put in a run are read and taken out again behind the cursor. -/
lemma extract_delete_inserted {pos : Cursor} {text : Text} {p p' : Paragraph} (h : p.runs ≠ [])
    (hok : (insertTextInParagraph pos text).run p = .ok () p') :
    extractFromParagraph pos { pos with byteOffset := pos.byteOffset + utf8Len text } p' = .ok text ∧
      (deleteInParagraph pos { pos with byteOffset := pos.byteOffset + utf8Len text }).run p' =
        .ok () p := by
  obtain ⟨run, u, v, hrun, ht, hu, rfl⟩ := (insertTextInParagraph_eq_ok_iff h).mp hok
  obtain ⟨hi, hget⟩ := List.getElem?_eq_some_iff.mp hrun
  have hnew : (p.runs.set pos.runIdx (run.withText (u ++ text ++ v)))[pos.runIdx]? =
      some (run.withText (u ++ text ++ v)) := List.getElem?_set_self hi
  constructor
  · exact (extractFromParagraph_eq_ok_iff (by rfl)).mpr ⟨_, u, v, hnew, rfl, hu, rfl⟩
  · refine (deleteInParagraph_eq_ok_iff (by rfl)).mpr ⟨_, u, text, v, hnew, rfl, hu, rfl, ?_⟩
    have hback : p.runs.set pos.runIdx run = p.runs := by
      rw [← hget]
      exact List.set_getElem_self hi
    simp [← ht, hback]

/-- An insertion into a paragraph with runs is undone; one into a paragraph without runs leaves an
empty run behind, or fails. -/
lemma restores_insertText_iff {pos : Cursor} {text : Text}
    (h : (applyCommand (.insertText pos text)).run d = .ok inverse d') :
    Restores inverse d' d ↔ ∀ p, (paragraphMut pos).get? d = some p → p.runs ≠ [] := by
  obtain ⟨rfl, p, p', hp, hins, rfl⟩ := insertText_eq_ok_iff.mp h
  rw [restores_deleteRange_after_iff hp]
  constructor
  · rintro ⟨-, hdel⟩ q hq hnil
    obtain rfl : p = q := by
      rw [get?_paragraphMut, hp] at hq
      exact Option.some.inj hq
    rw [insertTextInParagraph_nil hnil, EStateM.Result.ok.injEq] at hins
    have hlen := length_runs_deleteInParagraph (by rfl) hdel
    simp [← hins.2, hnil] at hlen
  · intro hne
    obtain ⟨hread, hdel⟩ := extract_delete_inserted (hne p (by rwa [get?_paragraphMut])) hins
    exact ⟨⟨text, hread⟩, hdel⟩

/-- Undoing a deletion by an insertion is undoing on the paragraph. -/
lemma restores_insertText_set_iff {pos : Cursor} {t : Text} {p p' : Paragraph}
    (hp : paragraphRef d.blocks pos = some p) :
    Restores (.insertText pos t) ((paragraphMut pos).set p' d) d ↔
      (insertTextInParagraph pos t).run p' = .ok () p := by
  rw [← get?_paragraphMut] at hp
  have hp' := (paragraphMut pos).get?_set p' hp
  rw [get?_paragraphMut] at hp'
  simp only [Restores, insertText_eq_ok_iff, hp', Option.some.injEq]
  constructor
  · rintro ⟨j, -, q, q', rfl, hins, hset⟩
    obtain rfl := ((paragraphMut pos).set_set_eq_iff hp p' q').mp hset
    exact hins
  · intro hins
    exact ⟨_, rfl, p', p, rfl, hins, ((paragraphMut pos).set_set_eq_iff hp p' p).mpr rfl⟩

/-- What was deleted inside one run is put back. -/
lemma insert_deleted {start stop : Cursor} {t : Text} {p p' : Paragraph}
    (h : start.runIdx = stop.runIdx) (hread : extractFromParagraph start stop p = .ok t)
    (hdel : (deleteInParagraph start stop).run p = .ok () p') :
    (insertTextInParagraph start t).run p' = .ok () p := by
  obtain ⟨run, u, s, w, hrun, ht, hu, hs, rfl⟩ := (deleteInParagraph_eq_ok_iff h).mp hdel
  obtain ⟨run', u', w', hrun', ht', hu', hs'⟩ := (extractFromParagraph_eq_ok_iff h).mp hread
  obtain rfl : run = run' := by
    rw [hrun] at hrun'
    exact Option.some.inj hrun'
  -- two cuts of one text at the same byte offsets are the same
  have hslice : some s = some t := by
    rw [← sliceBytes_eq_some_iff.mpr ⟨u, w, ht, hu, hs⟩, ← sliceBytes_eq_some_iff.mpr ⟨u', w', ht', hu', hs'⟩]
  obtain rfl := Option.some.inj hslice
  obtain ⟨hi, hget⟩ := List.getElem?_eq_some_iff.mp hrun
  have hne : (p.withRuns (p.runs.set start.runIdx (run.withText (u ++ w)))).runs ≠ [] := by
    rw [Paragraph.runs_withRuns, ← List.length_pos_iff, List.length_set]
    omega
  have hback : p.runs.set start.runIdx run = p.runs := by
    rw [← hget]
    exact List.set_getElem_self hi
  refine (insertTextInParagraph_eq_ok_iff hne).mpr
    ⟨run.withText (u ++ w), u, w, List.getElem?_set_self hi, rfl, hu, ?_⟩
  simp [← ht, hback]

/-- A deletion inside one run is undone; runs that were joined stay joined. -/
lemma restores_deleteRange_iff {range : Selection}
    (h : (applyCommand (.deleteRange range)).run d = .ok inverse d') :
    Restores inverse d' d ↔ range.normalized.1.runIdx = range.normalized.2.runIdx := by
  obtain ⟨start, stop, hnorm⟩ : ∃ start stop, range.normalized = (start, stop) := ⟨_, _, rfl⟩
  obtain ⟨-, p, p', t, hp, hread, rfl, hdel, rfl⟩ := (deleteRange_eq_ok_iff hnorm).mp h
  rw [restores_insertText_set_iff hp, hnorm]
  constructor
  · intro hins
    show start.runIdx = stop.runIdx
    by_contra hne
    obtain ⟨first, last, kept, cut, dropped, rest, hlt, -, hlast, -, -, -, -, rfl⟩ :=
      deleteInParagraph_across hne hdel
    have hlen := length_runs_insertTextInParagraph (by simp) hins
    obtain ⟨hj, -⟩ := List.getElem?_eq_some_iff.mp hlast
    simp only [Paragraph.runs_withRuns, List.length_append, List.length_cons, List.length_take,
      List.length_drop] at hlen
    omega
  · exact fun h => insert_deleted h hread hdel

/-! ### Every command -/

/-- The inverse of a command that succeeded restores the document exactly if the command is
undoable there. -/
theorem restores_iff_undoable {cmd : EditCommand} (h : (applyCommand cmd).run d = .ok inverse d') :
    Restores inverse d' d ↔ Undoable d cmd := by
  cases cmd with
  | insertText => exact restores_insertText_iff h
  | deleteRange => exact restores_deleteRange_iff h
  | insertTableRow => exact restores_insertTableRow_iff h
  | restoreTableRow => exact restores_restoreTableRow_iff h
  | insertTableColumn => exact restores_insertTableColumn_iff h
  | restoreTableColumn => exact restores_restoreTableColumn_iff h
  | removeBlock => exact restores_removeBlock_iff h
  | removeBookmark => exact restores_removeBookmark_iff h
  | addComment => exact restores_addComment_iff h
  | removeComment => exact restores_removeComment_iff h
  | setRunStyle => exact iff_of_true (restores_setRunStyle h) trivial
  | setAlignment =>
    rw [applyCommand] at h
    exact iff_of_true (restores_replaceParagraph (fun _ => rfl) h) trivial
  | toggleList =>
    rw [applyCommand] at h
    exact iff_of_true (restores_replaceParagraph (fun _ => rfl) h) trivial
  | insertTable =>
    rw [applyCommand] at h
    exact iff_of_true (restores_insertBlock h) trivial
  | insertImage =>
    rw [applyCommand] at h
    exact iff_of_true (restores_insertBlock h) trivial
  | deleteTableRow => exact iff_of_true (restores_deleteTableRow h) trivial
  | deleteTableColumn => exact iff_of_true (restores_deleteTableColumn h) trivial
  | insertCellImage => exact iff_of_true (restores_insertCellImage h) trivial
  | removeCellImage => exact iff_of_true (restores_removeCellImage h) trivial
  | replaceBlock => exact iff_of_true (restores_replaceBlock h) trivial
  | setSectionPageSetup => exact iff_of_true (restores_setSectionPageSetup h) trivial
  | addBookmark => exact iff_of_true (restores_addBookmark h) trivial
  | updateCommentText => exact iff_of_true (restores_updateCommentText h) trivial
  | replaceParagraph i previous | replaceBlocks blocks | setPageSetup setup | setHeader ps
    | setFooter ps | setHeaderFirst ps | setFooterFirst ps | setHeaderEven ps
    | setFooterEven ps =>
    rw [applyCommand] at h
    refine iff_of_true (restores_replace (fun _ => ?_) h) trivial
    rw [applyCommand]

end Commands

end Orchid.Document
