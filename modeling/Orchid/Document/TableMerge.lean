import Mathlib.Algebra.BigOperators.Group.Multiset.Basic
import Mathlib.Logic.Relation
import Mathlib.Tactic.Abel
import Orchid.Document.TableEdit

/-!
# Merged cells

The rows of a table are laid out over one grid. A merge and an unmerge replace cells by others that
take the same columns and hold the same texts; a vertical merge stands only as long as every
continuation lies under a cell of its own columns. Neither merge looks at the cells that belong to
another merge, so a call keeps that only if it cuts into none (`Respects`).
-/

namespace Orchid.Document

open Lib Relation

/-! ### The layout of a table -/

lemma TableCell.span_pos (x : TableCell) : 0 < x.span := by
  have h : (1 : U32) ≤ x.colspan := le_max_right _ _
  exact Fin.le_def.mp h

/-- The cells of a row with the grid columns where they begin. -/
abbrev TableRow.starts (r : TableRow) : List (ℕ × TableCell) :=
  Strip.starts TableCell.span 0 r.cells

/-- The columns that a row takes. -/
abbrev TableRow.gridWidth (r : TableRow) : ℕ := Strip.width TableCell.span r.cells

/-- Every continuation lies under a cell of a vertical merge of the same columns. -/
def TableRow.Under (above below : TableRow) : Prop :=
  ∀ c x, (c, x) ∈ below.starts → x.vMerge = some .continue →
    ∃ y, (c, y) ∈ above.starts ∧ y.span = x.span ∧ y.vMerge.isSome

/-- The texts of the paragraphs that are not empty. -/
def TableCell.filledTexts (x : TableCell) : Multiset Text :=
  ((x.paragraphs.map Paragraph.plainText).filter fun text => text ≠ [] : List Text)

/-- The texts of some cells that are not empty. -/
def filledTexts (cells : List TableCell) : Multiset Text := (cells.map TableCell.filledTexts).sum

namespace Table

/-- All rows are equally wide. -/
def EvenRows (t : Table) : Prop :=
  ∀ r ∈ t.rows, ∀ r' ∈ t.rows, r.gridWidth = r'.gridWidth

/-- Every continuation lies under a cell it continues; above the first row there is none. -/
def Stacked (t : Table) : Prop := ({} :: t.rows).IsChain TableRow.Under

/-- The texts of all paragraphs of the table that are not empty. -/
def filledTexts (t : Table) : Multiset Text :=
  (t.rows.map fun r => Document.filledTexts r.cells).sum

end Table

/-! ### Texts -/

lemma filledTexts_append (xs ys : List TableCell) :
    filledTexts (xs ++ ys) = filledTexts xs + filledTexts ys := by
  simp [filledTexts]

lemma filledTexts_cons (x : TableCell) (xs : List TableCell) :
    filledTexts (x :: xs) = x.filledTexts + filledTexts xs := by
  simp [filledTexts]

namespace TableCell

lemma filledTexts_blank : (fromParagraphs [{}]).filledTexts = 0 := rfl

lemma filledTexts_continuation (span : Option U32) : (continuation span).filledTexts = 0 := rfl

lemma filledTexts_appendCellContent (dst src : TableCell) (n : ℕ) :
    (dst.appendCellContent src n).filledTexts = dst.filledTexts + src.filledTexts := by
  unfold appendCellContent filledTexts
  dsimp only
  split_ifs with hdst hsrc
  · simp [hdst]
  · obtain ⟨hlen, hall⟩ := hsrc
    obtain ⟨p, hp⟩ := List.length_eq_one_iff.mp hlen
    have hempty : p.plainText = [] := by simpa [hp] using hall
    simp [hp, hempty]
  · simp

lemma filledTexts_joinRight (left right : TableCell) :
    (left.joinRight right).filledTexts = left.filledTexts + right.filledTexts :=
  filledTexts_appendCellContent left right left.paragraphs.length

lemma filledTexts_joinBelow (above below : TableCell) :
    (above.joinBelow below).filledTexts = above.filledTexts + below.filledTexts :=
  filledTexts_appendCellContent above below above.paragraphs.length

/-! ### Spans of the cells that a call makes -/

lemma span_joinRight {left right : TableCell} (h : left.span + right.span < 2 ^ 32) :
    (left.joinRight right).span = left.span + right.span := by
  have hval : (left.colspan + right.colspan).val = left.span + right.span := by
    rw [Fin.val_add]
    exact Nat.mod_eq_of_lt h
  have hle : (1 : U32) ≤ left.colspan + right.colspan := by
    have := left.span_pos
    rw [Fin.le_def, hval]
    show 1 ≤ _
    omega
  show (max (left.colspan + right.colspan) 1).val = _
  rw [max_eq_left hle, hval]

lemma span_blank : (fromParagraphs [{}]).span = 1 := rfl

lemma span_eq_of_gridSpan {x y : TableCell} (h : x.gridSpan = y.gridSpan) : x.span = y.span := by
  unfold span colspan
  rw [h]

end TableCell

/-! ### Cells by their index -/

namespace Table

lemma cellAt_eq_some {t : Table} {row col : ℕ} {x : TableCell} (h : t.cellAt row col = some x) :
    ∃ above r below pre post, t.rows = above ++ r :: below ∧ above.length = row ∧
      r.cells = pre ++ x :: post ∧ pre.length = col := by
  obtain ⟨r, hr, hx⟩ := Option.bind_eq_some_iff.mp h
  obtain ⟨above, below, hrows, hrow⟩ := exists_append_of_getElem? hr
  obtain ⟨pre, post, hcells, hcol⟩ := exists_append_of_getElem? hx
  exact ⟨above, r, below, pre, post, hrows, hrow, hcells, hcol⟩

lemma cellAt_append {t : Table} {above below : List TableRow} {r : TableRow}
    (hrows : t.rows = above ++ r :: below) (col : ℕ) :
    t.cellAt above.length col = r.cells[col]? := by
  unfold cellAt
  rw [hrows]
  simp

lemma cellGridCol_append {t : Table} {above below : List TableRow} {r : TableRow}
    {pre post : List TableCell} {x : TableCell} (hrows : t.rows = above ++ r :: below)
    (hcells : r.cells = pre ++ x :: post) :
    t.cellGridCol above.length pre.length = .ok (Strip.width TableCell.span pre) := by
  unfold cellGridCol
  rw [hrows]
  simp [hcells]

lemma modifyCells_append {t : Table} {above below : List TableRow} {r : TableRow}
    (hrows : t.rows = above ++ r :: below) (f : List TableCell → List TableCell) :
    (t.modifyCells above.length f).rows = above ++ { r with cells := f r.cells } :: below := by
  unfold modifyCells
  rw [hrows, modify_append_length]

end Table

/-! ### Continuations -/

namespace TableRow

lemma starts_recut (pre xs post : List TableCell) :
    (TableRow.mk (pre ++ (xs ++ post))).starts = Strip.starts TableCell.span 0 pre ++
      (Strip.starts TableCell.span (Strip.width TableCell.span pre) xs ++
        Strip.starts TableCell.span
          (Strip.width TableCell.span pre + Strip.width TableCell.span xs) post) := by
  simp [starts]

lemma mem_starts_append (pre post : List TableCell) (x : TableCell) :
    (Strip.width TableCell.span pre, x) ∈ (TableRow.mk (pre ++ x :: post)).starts := by
  simp [starts]

/-- A continuation lies over a column. -/
lemma continuesAt_iff {r : TableRow} {p : ℕ} : r.continuesAt p = true ↔
    ∃ c x, (c, x) ∈ r.starts ∧ (c ≤ p ∧ p < c + x.span) ∧ x.vMerge = some .continue := by
  unfold continuesAt cellIndexAtGridCol
  rw [Option.any_eq_true]
  constructor
  · rintro ⟨x, hx, hcont⟩
    obtain ⟨i, hi, hxi⟩ := Option.bind_eq_some_iff.mp hx
    obtain ⟨pre, y, post, hcells, rfl, hle, hlt⟩ := Strip.exists_of_indexAt hi
    obtain rfl : y = x := by
      rw [hcells] at hxi
      simpa using hxi
    rw [Nat.zero_add] at hle hlt
    refine ⟨_, y, ?_, ⟨hle, hlt⟩, of_decide_eq_true hcont⟩
    have := mem_starts_append pre post y
    rwa [← hcells] at this
  · rintro ⟨c, x, hx, hp, hcont⟩
    obtain ⟨i, hi, hxi⟩ := Strip.indexAt_of_mem_starts hx hp
    exact ⟨x, Option.bind_eq_some_iff.mpr ⟨i, hi, hxi⟩, decide_eq_true hcont⟩

lemma continuesAt_of_mem {r : TableRow} {c : ℕ} {x : TableCell} (hx : (c, x) ∈ r.starts)
    (hcont : x.vMerge = some .continue) : r.continuesAt c = true := by
  have := x.span_pos
  exact continuesAt_iff.mpr ⟨c, x, hx, ⟨le_rfl, by omega⟩, hcont⟩

/-- No continuation lies over the columns of cells that are none. -/
lemma not_continuesAt {pre ys post : List TableCell} {p : ℕ}
    (hys : ∀ y ∈ ys, y.vMerge ≠ some .continue) (hle : Strip.width TableCell.span pre ≤ p)
    (hlt : p < Strip.width TableCell.span pre + Strip.width TableCell.span ys) :
    (TableRow.mk (pre ++ (ys ++ post))).continuesAt p ≠ true := by
  intro h
  obtain ⟨c, x, hx, hp, hcont⟩ := continuesAt_iff.mp h
  rw [starts_recut, List.mem_append, List.mem_append] at hx
  rcases hx with hx | hx | hx
  · have := Strip.bounds_of_mem_starts hx
    omega
  · exact hys x (Strip.mem_of_mem_starts hx) hcont
  · have := Strip.bounds_of_mem_starts hx
    omega

end TableRow

/-! ### One row is replaced -/

/-- Cells replaced by others that take the same columns and hold the same texts. -/
structure Recut (xs ys : List TableCell) : Prop where
  width : Strip.width TableCell.span ys = Strip.width TableCell.span xs
  texts : filledTexts ys = filledTexts xs

namespace TableRow.Under

variable {pre xs ys post : List TableCell}

/-- Cells that are no continuations need nothing above them. -/
lemma recut_below {above : TableRow} (h : above.Under ⟨pre ++ (xs ++ post)⟩)
    (hwidth : Strip.width TableCell.span ys = Strip.width TableCell.span xs)
    (hys : ∀ y ∈ ys, y.vMerge ≠ some .continue) : above.Under ⟨pre ++ (ys ++ post)⟩ := by
  intro c x hx hcont
  refine h c x ?_ hcont
  rw [starts_recut, List.mem_append, List.mem_append] at hx ⊢
  rw [hwidth] at hx
  rcases hx with hx | hx | hx
  · exact Or.inl hx
  · exact absurd hcont (hys x (Strip.mem_of_mem_starts hx))
  · exact Or.inr (Or.inr hx)

/-- Cells that nothing continues may be replaced. -/
lemma recut_above {below : TableRow} (h : Under ⟨pre ++ (xs ++ post)⟩ below) (hr : Recut xs ys)
    (hfree : ∀ c x, (c, x) ∈ Strip.starts TableCell.span (Strip.width TableCell.span pre) xs →
      below.continuesAt c ≠ true) : Under ⟨pre ++ (ys ++ post)⟩ below := by
  intro c x hx hcont
  obtain ⟨y, hy, hspan, hmerge⟩ := h c x hx hcont
  refine ⟨y, ?_, hspan, hmerge⟩
  rw [starts_recut, List.mem_append, List.mem_append] at hy ⊢
  rw [hr.width]
  rcases hy with hy | hy | hy
  · exact Or.inl hy
  · exact absurd (continuesAt_of_mem hx hcont) (hfree c y hy)
  · exact Or.inr (Or.inr hy)

/-- A cell and the one that continues it are replaced. -/
lemma recut_both {x : TableCell} {pre' ys' post' : List TableCell} {x' : TableCell}
    (h : Under ⟨pre ++ x :: post⟩ ⟨pre' ++ x' :: post'⟩) (hr : Recut [x] ys) (hr' : Recut [x'] ys')
    (hys' : ∀ y ∈ ys', y.vMerge ≠ some .continue)
    (hpre : Strip.width TableCell.span pre = Strip.width TableCell.span pre') :
    Under ⟨pre ++ (ys ++ post)⟩ ⟨pre' ++ (ys' ++ post')⟩ := by
  have hx : Under ⟨pre ++ ([x] ++ post)⟩ ⟨pre' ++ ([x'] ++ post')⟩ := h
  have hbelow : Under ⟨pre ++ ([x] ++ post)⟩ ⟨pre' ++ (ys' ++ post')⟩ := hx.recut_below hr'.width hys'
  refine hbelow.recut_above hr fun c y hy => ?_
  obtain ⟨rfl, rfl⟩ := Prod.mk.inj (List.mem_singleton.mp hy)
  have hwidth := hr'.width
  have := x'.span_pos
  rw [Strip.width_cons, Strip.width_nil] at hwidth
  exact not_continuesAt hys' hpre.ge (by omega)

/-- A cell becomes one of a vertical merge. -/
lemma merged_above {below : TableRow} {x x' : TableCell} (h : Under ⟨pre ++ x :: post⟩ below)
    (hspan : x'.span = x.span) (hmerge : x'.vMerge.isSome) : Under ⟨pre ++ x' :: post⟩ below := by
  intro c z hz hcont
  obtain ⟨y, hy, hyspan, hymerge⟩ := h c z hz hcont
  have hold := starts_recut pre [x] post
  have hnew := starts_recut pre [x'] post
  rw [List.singleton_append] at hold hnew
  rw [hold, List.mem_append, List.mem_append] at hy
  rw [hnew]
  have hwidth : Strip.width TableCell.span [x'] = Strip.width TableCell.span [x] := by
    simp [hspan]
  rw [hwidth]
  rcases hy with hy | hy | hy
  · exact ⟨y, List.mem_append_left _ hy, hyspan, hymerge⟩
  · obtain ⟨rfl, rfl⟩ := Prod.mk.inj (List.mem_singleton.mp hy)
    refine ⟨x', ?_, hspan.trans hyspan, hmerge⟩
    exact List.mem_append_right _ (List.mem_append_left _ (List.mem_singleton.mpr rfl))
  · exact ⟨y, List.mem_append_right _ (List.mem_append_right _ hy), hyspan, hymerge⟩

/-- A cell becomes a continuation of the one above it. -/
lemma continued_below {x : TableCell} {pre' post' : List TableCell} {z z' : TableCell}
    (h : Under ⟨pre ++ x :: post⟩ ⟨pre' ++ z :: post'⟩)
    (hpre : Strip.width TableCell.span pre = Strip.width TableCell.span pre')
    (hmerge : x.vMerge.isSome) (hspan : x.span = z.span) (hspan' : z'.span = z.span) :
    Under ⟨pre ++ x :: post⟩ ⟨pre' ++ z' :: post'⟩ := by
  intro c y hy hcont
  have hold := starts_recut pre' [z] post'
  have hnew := starts_recut pre' [z'] post'
  rw [List.singleton_append] at hold hnew
  have hwidth : Strip.width TableCell.span [z'] = Strip.width TableCell.span [z] := by
    simp [hspan']
  rw [hnew, hwidth, List.mem_append, List.mem_append] at hy
  rcases hy with hy | hy | hy
  · refine h c y ?_ hcont
    rw [hold]
    exact List.mem_append_left _ hy
  · obtain ⟨rfl, rfl⟩ := Prod.mk.inj (List.mem_singleton.mp hy)
    rw [← hpre]
    exact ⟨x, mem_starts_append pre post x, hspan.trans hspan'.symm, hmerge⟩
  · refine h c y ?_ hcont
    rw [hold]
    exact List.mem_append_right _ (List.mem_append_right _ hy)

end TableRow.Under

/-- A cell that is only taken out of its merge. -/
lemma recut_clear (x : TableCell) : Recut [x] [{ x with vMerge := none }] := ⟨rfl, rfl⟩

lemma Recut.trans {xs ys zs : List TableCell} (h : Recut xs ys) (h' : Recut ys zs) :
    Recut xs zs := ⟨h'.width.trans h.width, h'.texts.trans h.texts⟩

namespace Table

/-- Rows replaced by others of the same widths and texts. -/
structure SameCells (rows rows' : List TableRow) : Prop where
  widths : rows'.map TableRow.gridWidth = rows.map TableRow.gridWidth
  texts : (rows'.map fun r => Document.filledTexts r.cells).sum =
    (rows.map fun r => Document.filledTexts r.cells).sum

lemma SameCells.append {rows rows' more more' : List TableRow} (h : SameCells rows rows')
    (h' : SameCells more more') : SameCells (rows ++ more) (rows' ++ more') where
  widths := by rw [List.map_append, List.map_append, h.widths, h'.widths]
  texts := by
    rw [List.map_append, List.map_append, List.sum_append, List.sum_append, h.texts, h'.texts]

lemma SameCells.refl (rows : List TableRow) : SameCells rows rows := ⟨rfl, rfl⟩

lemma EvenRows.of_same {t t' : Table} (h : t.EvenRows) (hs : SameCells t.rows t'.rows) :
    t'.EvenRows := by
  have hmem : ∀ r ∈ t'.rows, ∃ q ∈ t.rows, q.gridWidth = r.gridWidth := by
    intro r hr
    have := List.mem_map_of_mem (f := TableRow.gridWidth) hr
    rw [hs.widths] at this
    exact List.mem_map.mp this
  intro r hr r' hr'
  obtain ⟨q, hq, hqr⟩ := hmem r hr
  obtain ⟨q', hq', hqr'⟩ := hmem r' hr'
  rw [← hqr, ← hqr', h q hq q' hq']

lemma SameCells.of_recut {pre xs ys post : List TableCell} (h : Recut xs ys) :
    SameCells [⟨pre ++ (xs ++ post)⟩] [⟨pre ++ (ys ++ post)⟩] where
  widths := by simp [TableRow.gridWidth, h.width]
  texts := by simp [filledTexts_append, h.texts]

/-! ### What the merges do -/

/-- A cell and its right neighbour become one. -/
lemma mergeHorizontal_spec {t t' : Table} {row col : ℕ} (h : t.mergeHorizontal row col = .ok t') :
    ∃ above pre left right post below,
      t.rows = above ++ ⟨pre ++ ([left, right] ++ post)⟩ :: below ∧
      above.length = row ∧ pre.length = col ∧ left.vMerge ≠ some .continue ∧
      t'.rows = above ++ ⟨pre ++ ([left.joinRight right] ++ post)⟩ :: below := by
  unfold mergeHorizontal at h
  split_ifs at h with hcan
  cases hleft : t.cellAt row col with
  | none => simp [hleft] at h
  | some left =>
    cases hright : t.cellAt row (col + 1) with
    | none => simp [hleft, hright] at h
    | some right =>
      rw [hleft, hright] at h
      have hmerge : left.vMerge ≠ some .continue := by
        simp only [canMergeHorizontal, hleft, hright] at hcan
        simp at hcan
        exact hcan.1
      obtain ⟨above, r, below, pre, post, hrows, rfl, hcells, rfl⟩ := cellAt_eq_some hleft
      rw [cellAt_append hrows, hcells, List.getElem?_append_right (by omega)] at hright
      obtain ⟨post', rfl⟩ : ∃ post', post = right :: post' := by
        cases post with
        | nil => simp at hright
        | cons y post => exact ⟨post, by simpa using hright⟩
      refine ⟨above, pre, left, right, post', below, ?_, rfl, rfl, hmerge, ?_⟩
      · rw [hrows, List.cons_append, List.singleton_append, ← hcells]
      · rw [← Except.ok.inj h, modifyCells_append hrows, hcells]
        simp [List.eraseIdx_append_of_length_le]

/-- The cell below moves into the upper one and a continuation takes its place. -/
lemma mergeVertical_spec {t t' : Table} {row col : ℕ} (h : t.mergeVertical row col = .ok t') :
    ∃ above pre x post pre' z post' below,
      t.rows = above ++ ⟨pre ++ x :: post⟩ :: ⟨pre' ++ z :: post'⟩ :: below ∧
      above.length = row ∧
      t.cellBelow row col = some (Strip.width TableCell.span pre, pre'.length) ∧
      x.vMerge ≠ some .continue ∧ x.span = z.span ∧
      t'.rows = above ++ ⟨pre ++ x.joinBelow z :: post⟩ ::
        ⟨pre' ++ .continuation x.gridSpan :: post'⟩ :: below := by
  unfold mergeVertical at h
  split_ifs at h with hcan
  cases hbelow : t.cellBelow row col with
  | none => simp [hbelow] at h
  | some p =>
    obtain ⟨col0, belowCi⟩ := p
    rw [hbelow] at h
    dsimp only at h
    cases hx : t.cellAt row col with
    | none => simp [hx] at h
    | some x =>
      cases hz : t.cellAt (row + 1) belowCi with
      | none => simp [hx, hz] at h
      | some z =>
        rw [hx, hz] at h
        obtain ⟨hmerge, hspan⟩ : x.vMerge ≠ some .continue ∧ x.colspan = z.colspan := by
          simp only [canMergeVertical, hbelow, hx, hz] at hcan
          simpa using hcan
        obtain ⟨above, r, rest, pre, post, hrows, rfl, hcells, rfl⟩ := cellAt_eq_some hx
        have hcol : t.cellGridCol above.length pre.length =
            .ok (Strip.width TableCell.span pre) := cellGridCol_append hrows hcells
        obtain ⟨q, below, rfl⟩ : ∃ q below, rest = q :: below := by
          cases rest with
          | nil => simp [cellAt, hrows] at hz
          | cons q below => exact ⟨q, below, rfl⟩
        have hrows' : t.rows = (above ++ [r]) ++ q :: below := by simp [hrows]
        have hlen : (above ++ [r]).length = above.length + 1 := by simp
        rw [← hlen, cellAt_append hrows'] at hz
        obtain ⟨pre', post', hcells', rfl⟩ := exists_append_of_getElem? hz
        have hcol0 : col0 = Strip.width TableCell.span pre := by
          unfold cellBelow at hbelow
          rw [hcol] at hbelow
          obtain ⟨c, hc, hbelow⟩ := Option.bind_eq_some_iff.mp hbelow
          obtain ⟨q', -, hbelow⟩ := Option.bind_eq_some_iff.mp hbelow
          obtain ⟨i, -, hi⟩ := Option.bind_eq_some_iff.mp hbelow
          exact (Prod.mk.inj (Option.some.inj hi)).1.symm.trans (Option.some.inj hc).symm
        refine ⟨above, pre, x, post, pre', z, post', below, ?_, rfl, ?_, hmerge,
          congrArg Fin.val hspan, ?_⟩
        · rw [hrows, ← hcells, ← hcells']
        · rw [hcol0]
        · have hstep := modifyCells_append hrows' fun cells =>
            cells.set pre'.length (.continuation x.gridSpan)
          rw [hlen, List.append_assoc, List.singleton_append] at hstep
          rw [← Except.ok.inj h, modifyCells_append hstep, hcells, hcells']
          simp

/-! ### What the unmerge does -/

end Table

namespace TableRow

lemma cellIndexAtGridCol_append (pre post : List TableCell) (x : TableCell) :
    (TableRow.mk (pre ++ x :: post)).cellIndexAtGridCol (Strip.width TableCell.span pre) =
      some pre.length := by
  have := x.span_pos
  exact Strip.indexAt_append (by omega) (by omega)

/-- The row has a cell of width `s` at a column. -/
def HasAt (c s : ℕ) (r : TableRow) : Prop :=
  ∃ pre x post, r = ⟨pre ++ x :: post⟩ ∧ Strip.width TableCell.span pre = c ∧ x.span = s

/-- The cell at a column is replaced by cells that are no continuations. -/
def Split (c : ℕ) (r r' : TableRow) : Prop :=
  ∃ pre x ys post, r = ⟨pre ++ ([x] ++ post)⟩ ∧ r' = ⟨pre ++ (ys ++ post)⟩ ∧
    Strip.width TableCell.span pre = c ∧ Recut [x] ys ∧ ∀ y ∈ ys, y.vMerge ≠ some .continue

lemma clearMerge_append (pre post : List TableCell) (x : TableCell) :
    (TableRow.mk (pre ++ x :: post)).clearMerge (Strip.width TableCell.span pre) =
      ⟨pre ++ { x with vMerge := none } :: post⟩ := by
  unfold clearMerge
  rw [cellIndexAtGridCol_append]
  exact congrArg TableRow.mk (modify_append_length pre x post _)

lemma splitCell_append (pre post : List TableCell) (x : TableCell) (s : ℕ) :
    (TableRow.mk (pre ++ x :: post)).splitCell (Strip.width TableCell.span pre) s =
      ⟨pre ++ ({ x with gridSpan := none } ::
        List.replicate (s - 1) (.fromParagraphs [{}]) ++ post)⟩ := by
  unfold splitCell
  rw [cellIndexAtGridCol_append]
  dsimp only
  rw [modify_append_length]
  have := iterate_insertIdx (pre ++ [{ x with gridSpan := none }]) post
    (TableCell.fromParagraphs [{}]) (s - 1)
  rw [List.length_append, List.length_singleton] at this
  simp only [List.append_assoc, List.singleton_append] at this
  exact congrArg TableRow.mk this

lemma split_clearMerge {c s : ℕ} {r : TableRow} (h : r.HasAt c s) : Split c r (r.clearMerge c) := by
  obtain ⟨pre, x, post, rfl, rfl, -⟩ := h
  refine ⟨pre, x, [{ x with vMerge := none }], post, rfl, clearMerge_append pre post x, rfl, ?_, ?_⟩
  · exact ⟨rfl, rfl⟩
  · simp

lemma recut_splitCell (x : TableCell) : Recut [x]
    ({ x with gridSpan := none } :: List.replicate (x.span - 1) (.fromParagraphs [{}])) where
  width := by
    have hone : TableCell.span { x with gridSpan := none } = 1 := rfl
    have := x.span_pos
    simp only [Strip.width_cons, Strip.width_replicate, TableCell.span_blank, hone,
      Strip.width_nil]
    omega
  texts := by
    simp only [filledTexts, List.map_cons, List.map_nil, List.map_replicate,
      TableCell.filledTexts_blank, List.sum_cons, List.sum_replicate, nsmul_zero]
    rfl

lemma split_splitCell {c : ℕ} {pre post : List TableCell} {x : TableCell}
    (hpre : Strip.width TableCell.span pre = c) (hmerge : x.vMerge ≠ some .continue) :
    Split c ⟨pre ++ x :: post⟩ (splitCell ⟨pre ++ x :: post⟩ c x.span) := by
  subst hpre
  refine ⟨pre, x, _, post, rfl, splitCell_append pre post x x.span, rfl, recut_splitCell x, ?_⟩
  intro y hy
  rcases List.mem_cons.mp hy with rfl | hy
  · exact hmerge
  · rw [List.eq_of_mem_replicate hy]
    simp [TableCell.fromParagraphs]

lemma split_clearMerge_splitCell {c s : ℕ} {r : TableRow} (h : r.HasAt c s) :
    Split c r ((r.clearMerge c).splitCell c s) := by
  obtain ⟨pre, x, post, rfl, rfl, rfl⟩ := h
  rw [clearMerge_append]
  refine ⟨pre, x, _, post, rfl, splitCell_append pre post { x with vMerge := none } x.span, rfl,
    (recut_clear x).trans (recut_splitCell { x with vMerge := none }), ?_⟩
  intro y hy
  rcases List.mem_cons.mp hy with rfl | hy
  · simp
  · rw [List.eq_of_mem_replicate hy]
    simp [TableCell.fromParagraphs]

/-- What lies under a cell of a vertical merge and continues it has its columns. -/
lemma Under.hasAt {c s : ℕ} {r q : TableRow} (h : r.Under q) (hr : r.HasAt c s)
    (hq : q.continuesAt c = true) : q.HasAt c s := by
  obtain ⟨pre, x, post, rfl, rfl, rfl⟩ := hr
  obtain ⟨c', z, hz, hc, hcont⟩ := continuesAt_iff.mp hq
  obtain ⟨y, hy, hspan, -⟩ := h c' z hz hcont
  have hpos := x.span_pos
  obtain ⟨rfl, rfl⟩ := Strip.eq_of_mem_starts hy (mem_starts_append pre post x) (by omega)
    ⟨le_rfl, by omega⟩
  obtain ⟨pre', post', hq, hpre⟩ := Strip.exists_of_mem_starts hz
  exact ⟨pre', z, post', congrArg TableRow.mk hq, by omega, hspan.symm⟩

/-- Only the cells of a vertical merge are continued. -/
lemma Under.merged {pre post : List TableCell} {x : TableCell} {q : TableRow}
    (h : Under ⟨pre ++ x :: post⟩ q)
    (hq : q.continuesAt (Strip.width TableCell.span pre) = true) : x.vMerge.isSome := by
  obtain ⟨c, z, hz, hc, hcont⟩ := continuesAt_iff.mp hq
  obtain ⟨y, hy, hspan, hmerge⟩ := h c z hz hcont
  have hpos := x.span_pos
  obtain ⟨rfl, rfl⟩ := Strip.eq_of_mem_starts hy (mem_starts_append pre post x) (by omega)
    ⟨le_rfl, by omega⟩
  exact hmerge

/-- The rows that continue a cell have cells of its columns. -/
lemma hasAt_takeWhile {c s : ℕ} {r : TableRow} {rest : List TableRow}
    (h : (r :: rest).IsChain Under) (hr : r.HasAt c s) :
    ∀ q ∈ rest.takeWhile fun q => q.continuesAt c, q.HasAt c s := by
  induction rest generalizing r with
  | nil => simp
  | cons q rest ih =>
    intro q' hq'
    rw [List.takeWhile_cons] at hq'
    split_ifs at hq' with hcont
    · have hq : q.HasAt c s := h.rel.hasAt hr hcont
      rcases List.mem_cons.mp hq' with rfl | hq'
      · exact hq
      · exact ih h.tail hq q' hq'
    · simp at hq'

/-- A cell and those that continue it are replaced, row by row. -/
lemma isChain_split {c : ℕ} {a : TableRow} {block block' below : List TableRow}
    (h : (a :: (block ++ below)).IsChain Under) (hsplit : List.Forall₂ (Split c) block block')
    (hblock : block ≠ []) (hbelow : ∀ b ∈ below.head?, b.continuesAt c ≠ true) :
    (a :: (block' ++ below)).IsChain Under := by
  induction hsplit generalizing a with
  | nil => exact absurd rfl hblock
  | @cons r r' rest rest' hr hrest ih =>
    obtain ⟨pre, x, ys, post, rfl, rfl, rfl, hrecut, hys⟩ := hr
    have htop : a.Under ⟨pre ++ (ys ++ post)⟩ := h.rel.recut_below hrecut.width hys
    refine List.isChain_cons_cons.mpr ⟨htop, ?_⟩
    cases hrest with
    | nil =>
      refine h.tail.tail.cons fun b hb => ?_
      have hunder : Under ⟨pre ++ ([x] ++ post)⟩ b := h.tail.rel_head? hb
      refine hunder.recut_above hrecut fun c y hy => ?_
      obtain ⟨rfl, rfl⟩ := Prod.mk.inj (List.mem_singleton.mp hy)
      exact hbelow b hb
    | @cons q q' rest rest' hq hrest =>
      have htail := ih h.tail (List.cons_ne_nil q rest)
      obtain ⟨pre', x', ys', post', rfl, rfl, hpre, hrecut', hys'⟩ := hq
      have hunder : Under ⟨pre ++ x :: post⟩ ⟨pre' ++ x' :: post'⟩ := h.tail.rel
      exact htail.tail.cons_cons (hunder.recut_both hrecut hrecut' hys' hpre.symm)

end TableRow

namespace Table

lemma originAbove_spec {t : Table} {c r : ℕ} {o : ℕ × ℕ} (h : t.originAbove c r = .ok o) :
    ∃ x, t.cellAt o.1 o.2 = some x ∧ x.vMerge ≠ some .continue := by
  induction r with
  | zero => simp [originAbove] at h
  | succ r ih =>
    rw [originAbove] at h
    cases hci : (t.rows[r]?).bind fun row => row.cellIndexAtGridCol c with
    | none =>
      rw [hci] at h
      exact ih h
    | some ci =>
      rw [hci] at h
      dsimp only at h
      split_ifs at h with hcont
      · exact ih h
      · obtain rfl := Except.ok.inj h
        obtain ⟨row, hrow, hci⟩ := Option.bind_eq_some_iff.mp hci
        obtain ⟨pre, x, post, hcells, rfl, -⟩ := Strip.exists_of_indexAt hci
        have hx : t.cellAt r pre.length = some x := by
          unfold cellAt
          rw [hrow]
          simp [hcells]
        rw [hx] at hcont
        exact ⟨x, hx, hcont⟩

/-- The origin of a merge is a cell that is no continuation. -/
lemma resolveMergeOrigin_spec {t : Table} {row col : ℕ} {o : ℕ × ℕ}
    (h : t.resolveMergeOrigin row col = .ok o) :
    ∃ x, t.cellAt o.1 o.2 = some x ∧ x.vMerge ≠ some .continue := by
  unfold resolveMergeOrigin at h
  cases hx : t.cellAt row col with
  | none => simp [hx] at h
  | some x =>
    rw [hx] at h
    dsimp only at h
    split_ifs at h with hcont
    · cases hc : t.cellGridCol row col with
      | error e =>
        rw [hc] at h
        cases h
      | ok c =>
        rw [hc] at h
        exact originAbove_spec h
    · obtain rfl := Except.ok.inj h
      exact ⟨x, hx, hcont⟩

/-- How many rows a merge reaches down. -/
lemma vmergeRowspan_append {t : Table} {above rest : List TableRow} {pre post : List TableCell}
    {x : TableCell} (hrows : t.rows = above ++ ⟨pre ++ x :: post⟩ :: rest)
    (hmerge : x.vMerge ≠ some .continue) :
    t.vmergeRowspan above.length (Strip.width TableCell.span pre) =
      1 + if x.vMerge.isSome then
        (rest.takeWhile fun q => q.continuesAt (Strip.width TableCell.span pre)).length else 0 := by
  have hindex : (t.rows[above.length]?).bind
      (fun r => r.cellIndexAtGridCol (Strip.width TableCell.span pre)) = some pre.length := by
    rw [hrows]
    simpa using TableRow.cellIndexAtGridCol_append pre post x
  have hx : t.cellAt above.length pre.length = some x := by
    rw [cellAt_append hrows]
    simp
  have hdrop : t.rows.drop (above.length + 1) = rest := by
    rw [hrows]
    simp
  unfold vmergeRowspan
  rw [hindex]
  dsimp only
  rw [hx, Option.bind_some, hdrop]
  cases hv : x.vMerge with
  | none => rfl
  | some v =>
    cases v with
    | restart => rfl
    | «continue» => exact absurd hv hmerge

lemma modifyRows_append {t : Table} {above block below : List TableRow}
    (hrows : t.rows = above ++ (block ++ below)) (f : TableRow → TableRow) :
    (t.modifyRows above.length block.length f).rows = above ++ (block.map f ++ below) := by
  unfold modifyRows
  rw [hrows]
  have := foldl_modify_range' above (l := block ++ below) (n := block.length) (by simp) f
  rw [List.take_left, List.drop_left] at this
  exact this

/-- The cells of one merge are split, and nothing continues the last of them. -/
structure Unmerged (c : ℕ) (t t' : Table) (above block block' below : List TableRow) : Prop where
  rows : t.rows = above ++ (block ++ below)
  rows' : t'.rows = above ++ (block' ++ below)
  nonempty : block ≠ []
  split : List.Forall₂ (TableRow.Split c) block block'
  free : ∀ b ∈ below.head?, b.continuesAt c ≠ true

/-- A whole vertical merge is changed cell by cell. -/
lemma unmerged_map {t t' : Table} {c : ℕ} {above block below : List TableRow}
    {f : TableRow → TableRow} (rows : t.rows = above ++ (block ++ below))
    (rows' : t'.rows = above ++ (block.map f ++ below)) (hne : block ≠ [])
    (hf : ∀ q ∈ block, TableRow.Split c q (f q))
    (free : ∀ b ∈ below.head?, b.continuesAt c ≠ true) :
    Unmerged c t t' above block (block.map f) below where
  rows := rows
  rows' := rows'
  nonempty := hne
  split := List.forall₂_map_right_iff.mpr (List.forall₂_same.mpr hf)
  free := free

/-- The rows below that continue a cell. -/
lemma Stacked.exists_chain {t : Table} (h : t.Stacked) {above rest : List TableRow}
    {pre post : List TableCell} {x : TableCell}
    (hrows : t.rows = above ++ ⟨pre ++ x :: post⟩ :: rest) :
    ∃ chain below, rest = chain ++ below ∧
      (chain.length = if x.vMerge.isSome then
        (rest.takeWhile fun q => q.continuesAt (Strip.width TableCell.span pre)).length else 0) ∧
      (∀ q ∈ chain, q.HasAt (Strip.width TableCell.span pre) x.span) ∧
      ∀ b ∈ below.head?, b.continuesAt (Strip.width TableCell.span pre) ≠ true := by
  have hchain : (⟨pre ++ x :: post⟩ :: rest).IsChain TableRow.Under := by
    unfold Stacked at h
    rw [hrows, ← List.cons_append] at h
    exact h.right_of_append
  cases hv : x.vMerge with
  | none =>
    refine ⟨[], rest, rfl, rfl, by simp, fun b hb hcont => ?_⟩
    have hsome := (hchain.rel_head? hb).merged hcont
    rw [hv] at hsome
    exact absurd hsome (by decide)
  | some v =>
    refine ⟨rest.takeWhile _, rest.dropWhile _, List.takeWhile_append_dropWhile.symm, rfl, ?_, ?_⟩
    · exact TableRow.hasAt_takeWhile hchain ⟨pre, x, post, rfl, rfl, rfl⟩
    · intro b hb hcont
      have hnot := List.head?_dropWhile_not
        (fun q : TableRow => q.continuesAt (Strip.width TableCell.span pre)) rest
      rw [hb] at hnot
      simp [hcont] at hnot

/-- The unmerge splits one cell with all that continue it. -/
lemma unmergeAt_spec {t t' : Table} {row col : ℕ} (hstacked : t.Stacked)
    (h : t.unmergeAt row col = .ok t') :
    ∃ c above block block' below, Unmerged c t t' above block block' below := by
  unfold unmergeAt at h
  cases horigin : t.resolveMergeOrigin row col with
  | error e =>
    rw [horigin] at h
    cases h
  | ok o =>
    obtain ⟨x, hx, hmerge⟩ := resolveMergeOrigin_spec horigin
    obtain ⟨row', col'⟩ := o
    obtain ⟨above, r, rest, pre, post, hrows, rfl, hcells, rfl⟩ := cellAt_eq_some hx
    obtain rfl : r = ⟨pre ++ x :: post⟩ := congrArg TableRow.mk hcells
    have hcol := cellGridCol_append hrows rfl
    obtain ⟨chain, below, rfl, hlen, hat, hfree⟩ := hstacked.exists_chain hrows
    have hspan := vmergeRowspan_append hrows hmerge
    rw [← hlen] at hspan
    have hself : TableRow.HasAt (Strip.width TableCell.span pre) x.span ⟨pre ++ x :: post⟩ :=
      ⟨pre, x, post, rfl, rfl, rfl⟩
    have hat' : ∀ q ∈ TableRow.mk (pre ++ x :: post) :: chain,
        q.HasAt (Strip.width TableCell.span pre) x.span := by
      intro q hq
      rcases List.mem_cons.mp hq with rfl | hq
      · exact hself
      · exact hat q hq
    have hone : 1 + chain.length = (TableRow.mk (pre ++ x :: post) :: chain).length := by
      rw [List.length_cons, Nat.add_comm]
    dsimp only [bind, Except.bind] at h
    rw [horigin] at h
    dsimp only at h
    rw [hcol] at h
    dsimp only at h
    rw [hx, hspan, Option.map_some, Option.getD_some] at h
    have hself' : ∀ q ∈ TableRow.mk (pre ++ x :: post) :: chain, ¬ 1 < 1 + chain.length →
        q = ⟨pre ++ x :: post⟩ := by
      intro q hq hv
      obtain rfl : chain = [] := List.eq_nil_of_length_eq_zero (by omega)
      exact List.mem_singleton.mp hq
    rw [← List.cons_append] at hrows
    have hmax : max (1 + chain.length) 1 = 1 + chain.length := by omega
    rw [hmax] at h
    generalize hblock : TableRow.mk (pre ++ x :: post) :: chain = block at *
    have hne : block ≠ [] := by
      rw [← hblock]
      exact List.cons_ne_nil _ _
    rw [hone] at h hself'
    refine ⟨Strip.width TableCell.span pre, above, block, ?_⟩
    by_cases hv : 1 < block.length
    · by_cases hh : 1 < x.span
      · simp only [hv, hh, not_true, and_self, if_true, if_false] at h
        obtain rfl := Except.ok.inj h
        refine ⟨_, below, unmerged_map hrows ?_ hne
          (fun q hq => TableRow.split_clearMerge_splitCell (hat' q hq)) hfree⟩
        have hclear := modifyRows_append hrows fun q =>
          q.clearMerge (Strip.width TableCell.span pre)
        have hsplit := modifyRows_append hclear fun q =>
          q.splitCell (Strip.width TableCell.span pre) x.span
        rw [List.length_map, List.map_map] at hsplit
        exact hsplit
      · simp only [hv, hh, not_true, and_false, if_true, if_false] at h
        obtain rfl := Except.ok.inj h
        exact ⟨_, below, unmerged_map hrows (modifyRows_append hrows _) hne
          (fun q hq => TableRow.split_clearMerge (hat' q hq)) hfree⟩
    · by_cases hh : 1 < x.span
      · simp only [hv, hh, not_true, not_false_iff, false_and, if_true, if_false] at h
        obtain rfl := Except.ok.inj h
        refine ⟨_, below, unmerged_map hrows (modifyRows_append hrows _) hne
          (fun q hq => ?_) hfree⟩
        rw [hself' q hq hv]
        exact TableRow.split_splitCell rfl hmerge
      · simp [hv, hh] at h

/-! ### One call -/

/-- A call on a table. -/
inductive Call where
  | mergeAt (row col : ℕ)
  | unmergeAt (row col : ℕ)

/-- The table after a call; one that fails leaves it as it is. -/
def after (t : Table) : Call → Table
  | .mergeAt row col => (t.mergeAt row col).toOption.getD t
  | .unmergeAt row col => (t.unmergeAt row col).toOption.getD t

/-- Two neighbours whose spans add up and that nothing in the next row continues. -/
structure Separate (t : Table) (row col : ℕ) : Prop where
  fits : ∀ left ∈ t.cellAt row col, ∀ right ∈ t.cellAt row (col + 1),
    left.span + right.span < 2 ^ 32
  free : ∀ below ∈ t.rows[row + 1]?, ∀ i ∈ [col, col + 1], ∀ c, t.cellGridCol row i = .ok c →
    below.continuesAt c ≠ true

/-- The cell below begins at the same grid column. -/
def SameColumn (t : Table) (row col : ℕ) : Prop :=
  ∀ c i, t.cellBelow row col = some (c, i) → t.cellGridCol (row + 1) i = .ok c

/-- A call that cuts into no other merge. -/
def Respects (t : Table) : Call → Prop
  | .mergeAt row col =>
    if t.canMergeHorizontal row col then t.Separate row col
    else t.canMergeVertical row col → t.SameColumn row col
  | .unmergeAt _ _ => True

/-- What a table keeps through the calls. -/
structure Kept (t t' : Table) : Prop where
  same : SameCells t.rows t'.rows
  stacked : t'.Stacked

lemma Kept.of_rows {t t' : Table} {above rows rows' : List TableRow} (hstacked : t.Stacked)
    (h : t.rows = above ++ rows) (h' : t'.rows = above ++ rows') (hs : SameCells rows rows')
    (hchain : ∀ a, (a :: rows).IsChain TableRow.Under → (a :: rows').IsChain TableRow.Under) :
    Kept t t' where
  same := by
    rw [h, h']
    exact (SameCells.refl above).append hs
  stacked := by
    unfold Stacked at hstacked ⊢
    rw [h, ← List.cons_append] at hstacked
    rw [h', ← List.cons_append]
    exact isChain_append_imp (List.cons_ne_nil _ _) hstacked hchain

lemma kept_mergeHorizontal {t t' : Table} {row col : ℕ} (hstacked : t.Stacked)
    (hsep : t.Separate row col) (h : t.mergeHorizontal row col = .ok t') : Kept t t' := by
  obtain ⟨above, pre, left, right, post, below, hrows, rfl, rfl, hmerge, hrows'⟩ :=
    mergeHorizontal_spec h
  have hleft : t.cellAt above.length pre.length = some left := by
    rw [cellAt_append hrows]
    simp
  have hright : t.cellAt above.length (pre.length + 1) = some right := by
    rw [cellAt_append hrows]
    simp
  have hrecut : Recut [left, right] [left.joinRight right] := by
    constructor
    · simp [TableCell.span_joinRight (hsep.fits left hleft right hright)]
    · simp [Document.filledTexts, TableCell.filledTexts_joinRight]
  refine Kept.of_rows hstacked hrows hrows' ?_ fun a ha => ?_
  · exact (SameCells.of_recut hrecut).append (SameCells.refl below)
  · have htop := ha.rel.recut_below hrecut.width (List.forall_mem_singleton.mpr hmerge)
    refine List.isChain_cons_cons.mpr ⟨htop, ha.tail.tail.cons fun b hb => ?_⟩
    have hunder := ha.tail.rel_head? hb
    refine hunder.recut_above hrecut fun c y hy => ?_
    have hb' : b ∈ t.rows[above.length + 1]? := by
      rw [hrows, List.getElem?_append_right (by omega)]
      simpa [List.head?_eq_getElem?] using hb
    have hcol : ∃ i ∈ [pre.length, pre.length + 1], t.cellGridCol above.length i = .ok c := by
      rcases List.mem_cons.mp hy with hy | hy
      · obtain ⟨rfl, rfl⟩ := Prod.mk.inj hy
        exact ⟨pre.length, by simp, cellGridCol_append hrows rfl⟩
      · obtain ⟨rfl, rfl⟩ := Prod.mk.inj (List.mem_singleton.mp hy)
        have hcells : pre ++ ([left, y] ++ post) = (pre ++ [left]) ++ y :: post := by simp
        have := cellGridCol_append hrows hcells
        rw [List.length_append, List.length_singleton] at this
        refine ⟨pre.length + 1, by simp, ?_⟩
        simpa using this
    obtain ⟨i, hi, hcol⟩ := hcol
    exact hsep.free b hb' i hi c hcol

lemma kept_mergeVertical {t t' : Table} {row col : ℕ} (hstacked : t.Stacked)
    (hsame : t.SameColumn row col) (h : t.mergeVertical row col = .ok t') : Kept t t' := by
  obtain ⟨above, pre, x, post, pre', z, post', below, hrows, rfl, hbelow, hmerge, hspan, hrows'⟩ :=
    mergeVertical_spec h
  have hpre : Strip.width TableCell.span pre = Strip.width TableCell.span pre' := by
    have hrows₂ : t.rows = (above ++ [⟨pre ++ x :: post⟩]) ++ ⟨pre' ++ z :: post'⟩ :: below := by
      simp [hrows]
    have hcol := cellGridCol_append hrows₂ rfl
    rw [List.length_append, List.length_singleton, hsame _ _ hbelow] at hcol
    exact Except.ok.inj hcol
  have hjoin : (x.joinBelow z).span = x.span := TableCell.span_eq_of_gridSpan rfl
  have hcont : (TableCell.continuation x.gridSpan).span = x.span :=
    TableCell.span_eq_of_gridSpan rfl
  refine Kept.of_rows hstacked hrows hrows' ?_ fun a ha => ?_
  · constructor
    · simp [TableRow.gridWidth, hjoin, hcont, hspan]
    · simp only [List.map_cons, List.sum_cons, filledTexts_append, filledTexts_cons,
        TableCell.filledTexts_joinBelow, TableCell.filledTexts_continuation]
      abel
  · have htop : a.Under ⟨pre ++ ([x.joinBelow z] ++ post)⟩ := by
      have hx : a.Under ⟨pre ++ ([x] ++ post)⟩ := ha.rel
      refine hx.recut_below ?_ ?_
      · simp [hjoin]
      · simp [TableCell.joinBelow]
    have hmid : TableRow.Under ⟨pre ++ x.joinBelow z :: post⟩ ⟨pre' ++ z :: post'⟩ :=
      ha.tail.rel.merged_above hjoin rfl
    have hmid' : TableRow.Under ⟨pre ++ x.joinBelow z :: post⟩
        ⟨pre' ++ .continuation x.gridSpan :: post'⟩ :=
      hmid.continued_below hpre rfl (hjoin.trans hspan) (hcont.trans hspan)
    refine List.isChain_cons_cons.mpr ⟨htop, List.isChain_cons_cons.mpr ⟨hmid', ?_⟩⟩
    refine ha.tail.tail.tail.cons fun b hb => ?_
    exact (ha.tail.tail.rel_head? hb).merged_above (hcont.trans hspan) rfl

lemma SameCells.of_split {c : ℕ} {block block' : List TableRow}
    (h : List.Forall₂ (TableRow.Split c) block block') : SameCells block block' := by
  induction h with
  | nil => exact SameCells.refl []
  | cons hr hrest ih =>
    obtain ⟨pre, x, ys, post, rfl, rfl, -, hrecut, -⟩ := hr
    exact (SameCells.of_recut hrecut).append ih

lemma kept_unmergeAt {t t' : Table} {row col : ℕ} (hstacked : t.Stacked)
    (h : t.unmergeAt row col = .ok t') : Kept t t' := by
  obtain ⟨c, above, block, block', below, hun⟩ := unmergeAt_spec hstacked h
  refine Kept.of_rows hstacked hun.rows hun.rows' ?_ fun a ha => ?_
  · exact (SameCells.of_split hun.split).append (SameCells.refl below)
  · exact TableRow.isChain_split ha hun.split hun.nonempty hun.free

lemma kept_of_ok {t : Table} {res : Except Fault Table} (hstacked : t.Stacked)
    (h : ∀ t', res = .ok t' → Kept t t') : Kept t (res.toOption.getD t) := by
  cases res with
  | error e => exact ⟨SameCells.refl t.rows, hstacked⟩
  | ok t' => exact h t' rfl

/-- A call that cuts into no other merge keeps the layout and the texts. -/
lemma kept_after {t : Table} (hstacked : t.Stacked) {call : Call} (hr : t.Respects call) :
    Kept t (t.after call) := by
  cases call with
  | mergeAt row col =>
    refine kept_of_ok hstacked fun t' h => ?_
    have hr' : if t.canMergeHorizontal row col then t.Separate row col
      else t.canMergeVertical row col → t.SameColumn row col := hr
    unfold mergeAt at h
    split_ifs at h hr' with hhor hver
    · exact kept_mergeHorizontal hstacked hr' h
    · exact kept_mergeVertical hstacked (hr' hver) h
  | unmergeAt row col =>
    exact kept_of_ok hstacked fun t' h => kept_unmergeAt hstacked h

/-! ### Runs -/

/-- A run of merges and unmerges that cut into no other merge keeps the rows equally wide, every
continuation under a cell of its columns, and the texts. -/
theorem merges_keep_layout {t t' : Table} (heven : t.EvenRows) (hstacked : t.Stacked)
    (h : ReflTransGen (fun t t' => ∃ call, t.Respects call ∧ t' = t.after call) t t') :
    t'.EvenRows ∧ t'.Stacked ∧ t'.filledTexts = t.filledTexts := by
  induction h with
  | refl => exact ⟨heven, hstacked, rfl⟩
  | tail _ hstep ih =>
    obtain ⟨call, hr, rfl⟩ := hstep
    obtain ⟨heven', hstacked', htexts⟩ := ih
    have hkept := kept_after hstacked' hr
    exact ⟨heven'.of_same hkept.same, hkept.stacked, hkept.same.texts.trans htexts⟩

/-- Two rows of two empty cells. -/
def square : Table := { rows := [⟨[{}, {}]⟩, ⟨[{}, {}]⟩] }

lemma evenRows_square : square.EvenRows := by
  intro r hr r' hr'
  obtain rfl : r = ⟨[{}, {}]⟩ := by simpa [square] using hr
  obtain rfl : r' = ⟨[{}, {}]⟩ := by simpa [square] using hr'
  rfl

lemma stacked_square : square.Stacked := by
  have hnone : ∀ above : TableRow, above.Under ⟨[{}, {}]⟩ := by
    intro above c x hx hcont
    have hmem := Strip.mem_of_mem_starts hx
    obtain rfl : x = {} := by simpa using hmem
    simp at hcont
  exact List.isChain_cons_cons.mpr ⟨hnone {}, List.isChain_cons_cons.mpr
    ⟨hnone ⟨[{}, {}]⟩, List.isChain_singleton _⟩⟩

/-- The cells of the second column are merged, and a column of two taken apart again. -/
theorem merges_keep_layout_square :
    ((square.after (.mergeAt 0 1)).after (.unmergeAt 1 1)).EvenRows ∧
    ((square.after (.mergeAt 0 1)).after (.unmergeAt 1 1)).Stacked ∧
    ((square.after (.mergeAt 0 1)).after (.unmergeAt 1 1)).filledTexts = square.filledTexts := by
  refine merges_keep_layout evenRows_square stacked_square
    ((ReflTransGen.single ⟨.mergeAt 0 1, ?_, rfl⟩).tail ⟨.unmergeAt 1 1, trivial, rfl⟩)
  intro _ c i h
  have hbelow : square.cellBelow 0 1 = some (1, 1) := by decide
  rw [hbelow] at h
  obtain ⟨rfl, rfl⟩ := Prod.mk.inj (Option.some.inj h)
  decide

/-- The head of a vertical merge is joined to its left neighbour, and its continuation stays. -/
theorem not_merges_keep_layout :
    ¬ ∀ t t' : Table, t.EvenRows → t.Stacked →
      ReflTransGen (fun t t' => ∃ call, t' = t.after call) t t' →
        t'.EvenRows ∧ t'.Stacked ∧ t'.filledTexts = t.filledTexts := by
  intro h
  have hrun := h square ((square.after (.mergeAt 0 1)).after (.mergeAt 0 0)) evenRows_square
    stacked_square ((ReflTransGen.single ⟨.mergeAt 0 1, rfl⟩).tail ⟨.mergeAt 0 0, rfl⟩)
  have hrows : ((square.after (.mergeAt 0 1)).after (.mergeAt 0 0)).rows =
      [⟨[{ paragraphs := [], gridSpan := some 2 }]⟩, ⟨[{}, .continuation none]⟩] := rfl
  have hstacked := hrun.2.1
  unfold Stacked at hstacked
  rw [hrows] at hstacked
  have hmem : (1, .continuation none) ∈ TableRow.starts ⟨[{}, .continuation none]⟩ :=
    List.mem_cons_of_mem _ (List.mem_singleton.mpr rfl)
  obtain ⟨y, hy, -, -⟩ := hstacked.tail.rel 1 (.continuation none) hmem rfl
  simp [TableRow.starts] at hy

end Table

end Orchid.Document
