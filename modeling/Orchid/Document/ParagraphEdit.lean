import Orchid.Document.TableEdit

/-!
# Splitting and joining paragraphs

What the return key and the deletion of a longer selection make of the body and of a table cell.
Both give new blocks and leave the document alone; a slice that does not fall on char boundaries
panics.
-/

namespace Orchid.Document

open Lib
open String (utf8Len)

/-- Whether both are inside the same table cell. -/
def Cursor.sameCell (a b : Cursor) : Bool :=
  match a.cell, b.cell with
  | some p, some q => a.blockIdx = b.blockIdx ∧ p.row = q.row ∧ p.col = q.col
  | _, _ => false

/-! ### Splitting -/

/-- A run cut at a byte offset, at its end if it is shorter. Neither piece keeps the field. -/
def Run.cutAt (run : Run) (byteOffset : ℕ) : Except Fault (Run × Run) :=
  match splitAtByte run.text (min byteOffset (utf8Len run.text)) with
  | none => .error .panic
  | some (u, v) =>
    .ok ({ run with text := u, field := none }, { run with text := v, field := none })

/-- An empty run in the style of the last one. -/
def continuing (runs : List Run) : Run :=
  match runs.getLast? with
  | none => {}
  | some last => { last with text := [], field := none }

def splitRunsAt (p : Paragraph) (pos : Cursor) : Except Fault (List Run × List Run) := do
  let (left, right) ←
    match p.runs[pos.runIdx]? with
    | none => pure (p.runs, [])
    | some run => do
      let (u, v) ← run.cutAt pos.byteOffset
      pure (p.runs.take pos.runIdx ++ [u], v :: p.runs.drop (pos.runIdx + 1))
  let left := if left.isEmpty then [{}] else left
  return (left, if right.isEmpty then [continuing left] else right)

/-- The paragraph in front of a new break. -/
def Paragraph.leftHalf (p : Paragraph) (runs : List Run) : Paragraph :=
  { p with runs, spaceAfterTwips := 0, sectionProperties := none }

/-- The paragraph behind a new break. -/
def Paragraph.rightHalf (p : Paragraph) (runs : List Run) : Paragraph :=
  { runs
    alignment := p.alignment
    spaceAfterTwips := p.spaceAfterTwips
    lineSpacing := p.lineSpacing
    lineSpacingRule := p.lineSpacingRule
    indentLeftTwips := p.indentLeftTwips
    indentFirstLineTwips := p.indentFirstLineTwips
    indentRightTwips := p.indentRightTwips
    shadeFill := p.shadeFill
    borderSides := p.borderSides
    sectionProperties := p.sectionProperties }

def splitParagraphBlocks (blocks : List Block) (pos : Cursor) : Except Fault (List Block) :=
  match paragraphAt blocks pos.blockIdx with
  | none => .error .editOutOfBounds
  | some p => do
    let (left, right) ← splitRunsAt p pos
    return (blocks.set pos.blockIdx (.paragraph (p.leftHalf left))).insertIdx (pos.blockIdx + 1)
      (.paragraph (p.rightHalf right))

/-- The part of `splitCellParagraph` inside the cell. -/
def TableCell.splitParagraph (cell : TableCell) (paraIdx : ℕ) (pos : Cursor) :
    Except Fault TableCell :=
  match cell.paragraphs[paraIdx]? with
  | none => .error .editOutOfBounds
  | some p => do
    let (left, right) ← splitRunsAt p pos
    return { cell with
      paragraphs := (cell.paragraphs.set paraIdx (p.leftHalf left)).insertIdx (paraIdx + 1)
        (p.rightHalf right) }

def splitCellParagraph (d : Document) (pos : Cursor) : Except Fault (List Block × Cursor) :=
  match pos.cell with
  | none => .error .editOutOfBounds
  | some path =>
    let part := bodyCell pos.blockIdx path.row path.col
    match part.get? d with
    | none => .error .editOutOfBounds
    | some cell => do
      let cell ← cell.splitParagraph path.paraIdx pos
      return ((part.set cell d).blocks,
        { blockIdx := pos.blockIdx, cell := some ⟨path.row, path.col, path.paraIdx + 1, none⟩ })

/-! ### Joining -/

/-- The runs in front of `start` and behind `stop`, without the empty ones. -/
def joinRuns (startP endP : Paragraph) (start stop : Cursor) : Except Fault (List Run) := do
  let front ←
    match startP.runs[start.runIdx]? with
    | none => pure startP.runs
    | some run => do
      let (u, _) ← run.cutAt start.byteOffset
      pure (startP.runs.take start.runIdx ++ [u])
  let back ←
    match endP.runs[stop.runIdx]? with
    | none => pure []
    | some run => do
      let (_, v) ← run.cutAt stop.byteOffset
      pure (v :: endP.runs.drop (stop.runIdx + 1))
  let runs := (front ++ back).filter fun run => !run.text.isEmpty
  return if runs.isEmpty then [{}] else runs

/-- The joined paragraph: all but the style id is from the first one. -/
def Paragraph.joined (startP : Paragraph) (runs : List Run) : Paragraph :=
  { startP with runs, styleId := none }

/-- The elements outside of a span of indices, with `merged` at its beginning. -/
def replaceSpan {α : Type} (xs : List α) (first last : ℕ) (merged : α) : List α :=
  xs.zipIdx.filterMap fun (x, i) =>
    if i < first ∨ last < i then some x else if i = first then some merged else none

/-- The part of `deleteMultiCellParagraph` inside the cell. -/
def TableCell.joinParagraphs (cell : TableCell) (first last : ℕ) (start stop : Cursor) :
    Except Fault TableCell :=
  match cell.paragraphs[first]?, cell.paragraphs[last]? with
  | some startP, some endP => do
    let runs ← joinRuns startP endP start stop
    return { cell with paragraphs := replaceSpan cell.paragraphs first last (startP.joined runs) }
  | _, _ => .error .editOutOfBounds

def deleteMultiCellParagraph (d : Document) (start stop : Cursor) : Except Fault (List Block) :=
  if start.sameCell stop then
    match start.cell, stop.cell with
    | some path, some endPath =>
      let part := bodyCell start.blockIdx path.row path.col
      match part.get? d with
      | none => .error .editOutOfBounds
      | some cell => do
        let cell ← cell.joinParagraphs path.paraIdx endPath.paraIdx start stop
        return (part.set cell d).blocks
    | _, _ => .error .editOutOfBounds
  else .error .editOutOfBounds

def deleteMultiParagraph (blocks : List Block) (start stop : Cursor) : Except Fault (List Block) :=
  match paragraphAt blocks start.blockIdx, paragraphAt blocks stop.blockIdx with
  | some startP, some endP => do
    let runs ← joinRuns startP endP start stop
    return replaceSpan blocks start.blockIdx stop.blockIdx (.paragraph (startP.joined runs))
  | _, _ => .error .editOutOfBounds

/-! ### Successful edits -/

lemma TableCell.splitParagraph_eq_ok_iff {cell cell' : TableCell} {k : ℕ} {pos : Cursor} :
    cell.splitParagraph k pos = .ok cell' ↔
      ∃ p left right, cell.paragraphs[k]? = some p ∧ splitRunsAt p pos = .ok (left, right) ∧
        { cell with
          paragraphs := (cell.paragraphs.set k (p.leftHalf left)).insertIdx (k + 1)
            (p.rightHalf right) } = cell' := by
  cases hp : cell.paragraphs[k]? with
  | none => simp [TableCell.splitParagraph, hp]
  | some p =>
    cases hsplit : splitRunsAt p pos with
    | error e => simp [TableCell.splitParagraph, hp, hsplit, bind, Except.bind]
    | ok runs =>
      obtain ⟨left, right⟩ := runs
      simp [TableCell.splitParagraph, hp, hsplit, bind, Except.bind, pure, Except.pure]

lemma TableCell.joinParagraphs_eq_ok_iff {cell cell' : TableCell} {first last : ℕ}
    {start stop : Cursor} :
    cell.joinParagraphs first last start stop = .ok cell' ↔
      ∃ startP endP runs, cell.paragraphs[first]? = some startP ∧
        cell.paragraphs[last]? = some endP ∧ joinRuns startP endP start stop = .ok runs ∧
        { cell with
          paragraphs := replaceSpan cell.paragraphs first last (startP.joined runs) } = cell' := by
  cases hfirst : cell.paragraphs[first]? with
  | none => simp [TableCell.joinParagraphs, hfirst]
  | some startP =>
    cases hlast : cell.paragraphs[last]? with
    | none => simp [TableCell.joinParagraphs, hfirst, hlast]
    | some endP =>
      cases hjoin : joinRuns startP endP start stop with
      | error e => simp [TableCell.joinParagraphs, hfirst, hlast, hjoin, bind, Except.bind]
      | ok runs =>
        simp [TableCell.joinParagraphs, hfirst, hlast, hjoin, bind, Except.bind, pure, Except.pure]

/-! ### Spans -/

section Span

variable {α : Type} {xs : List α} {first last n : ℕ}

/-- What `replaceSpan` makes of an element and its index. -/
def spanPiece (first last : ℕ) (merged : α) (x : α × ℕ) : Option α :=
  if x.2 < first ∨ last < x.2 then some x.1 else if x.2 = first then some merged else none

lemma filterMap_outside (merged : α)
    (h : ∀ i, n ≤ i → i < n + xs.length → i < first ∨ last < i) :
    (xs.zipIdx n).filterMap (spanPiece first last merged) = xs := by
  induction xs generalizing n with
  | nil => rfl
  | cons x xs ih =>
    have hx : spanPiece first last merged (x, n) = some x :=
      if_pos (h n (Nat.le_refl n) (by simp))
    rw [List.zipIdx_cons, List.filterMap_cons_some hx]
    congr 1
    refine ih fun i hi hlt => h i (by omega) ?_
    rw [List.length_cons]
    omega

lemma filterMap_inside (merged : α)
    (h : ∀ i, n ≤ i → i < n + xs.length → first < i ∧ i ≤ last) :
    (xs.zipIdx n).filterMap (spanPiece first last merged) = [] := by
  rw [List.filterMap_eq_nil_iff]
  rintro ⟨x, i⟩ hx
  have hlow := List.le_snd_of_mem_zipIdx hx
  have hhigh := List.snd_lt_add_of_mem_zipIdx hx
  obtain ⟨hfirst, hlast⟩ := h i hlow (by omega)
  rw [spanPiece, if_neg (by simp; omega), if_neg (by simp; omega)]

lemma replaceSpan_eq (h : first ≤ last) (hlen : last < xs.length) (merged : α) :
    replaceSpan xs first last merged = xs.take first ++ merged :: xs.drop (last + 1) := by
  have hsplit : xs = xs.take first ++ (xs[first] :: ((xs.drop (first + 1)).take (last - first) ++
      xs.drop (last + 1))) := by
    have hdrop : xs.drop (last + 1) = (xs.drop (first + 1)).drop (last - first) := by
      rw [List.drop_drop]
      congr 1
      omega
    rw [hdrop, List.take_append_drop, ← List.drop_eq_getElem_cons, List.take_append_drop]
  have hlenf : (xs.take first).length = first := by
    rw [List.length_take]
    omega
  have hlenm : ((xs.drop (first + 1)).take (last - first)).length = last - first := by
    rw [List.length_take, List.length_drop]
    omega
  change xs.zipIdx.filterMap (spanPiece first last merged) = _
  conv_lhs => rw [hsplit]
  rw [List.zipIdx_append, List.zipIdx_cons, List.zipIdx_append, List.filterMap_append, hlenf,
    hlenm, filterMap_outside merged (by omega), List.filterMap_cons_some, List.filterMap_append,
    filterMap_inside merged (by omega), filterMap_outside merged (by omega), List.nil_append]
  rw [spanPiece, if_neg (by simp; omega), if_pos (by simp)]

lemma replaceSpan_of_lt (h : last < first) (merged : α) :
    replaceSpan xs first last merged = xs := by
  change xs.zipIdx.filterMap (spanPiece first last merged) = _
  exact filterMap_outside merged (by omega)

end Span

end Orchid.Document
