import Orchid.Document.CellImages
import Orchid.Document.ParagraphCut
import Orchid.Document.Texts
import Orchid.Document.UndoRuns

/-!
# Deleting a selection over several paragraphs

What `delete_selection_if_needed` does with a selection that begins in one paragraph and ends in a
later one, of the body or of one table cell.
-/

namespace Orchid.Document

open Lib
open String (utf8Len)

/-! ### The dispatch -/

/-- Delete a selection unless it is collapsed; returns the caret where typing continues. -/
def deleteSelectionIfNeeded (sel : Selection) : Edit (UndoStack × Document) Cursor := do
  if sel.anchor = sel.head then return sel.head
  let (start, stop) := sel.normalized
  if start.sameParagraph stop then
    UndoStack.push (.deleteRange ⟨start, stop⟩)
    return start
  let (_, d) ← get
  let next : Except Fault (List Block) :=
    if start.sameCell stop then deleteMultiCellParagraph d start stop
    else if start.cell.isSome ∨ stop.cell.isSome then .error .editOutOfBounds
    else deleteMultiParagraph d.blocks start stop
  match next with
  | .error e => throw e
  | .ok blocks =>
    UndoStack.push (.replaceBlocks blocks)
    return start

/-! ### Selections over several paragraphs -/

/-- Two cursors in different paragraphs of the body or of one table cell, the first one in front. -/
def Cursor.Spans (start stop : Cursor) : Prop :=
  (start.cell = none ∧ stop.cell = none ∧ start.blockIdx < stop.blockIdx) ∨
    ∃ row col i j, start.blockIdx = stop.blockIdx ∧ start.cell = some ⟨row, col, i, none⟩ ∧
      stop.cell = some ⟨row, col, j, none⟩ ∧ i < j

/-- A selection from a position of one paragraph to a position of a later one. -/
structure LongSelection (d : Document) where
  sel : Selection
  start : Cursor
  stop : Cursor
  normalized : sel.normalized = (start, stop)
  spans : start.Spans stop
  startP : Paragraph
  endP : Paragraph
  startRef : paragraphRef d.blocks start = some startP
  stopRef : paragraphRef d.blocks stop = some endP
  startIn : startP.HasPosition start.runIdx start.byteOffset
  stopIn : endP.HasPosition stop.runIdx stop.byteOffset

variable {d : Document}

namespace LongSelection

/-- The text that stays in front of the selection, in its paragraph. -/
def kept (s : LongSelection d) : Text := s.startP.textBefore s.start.runIdx s.start.byteOffset

/-- The text that stays behind the selection, in its paragraph. -/
def left (s : LongSelection d) : Text := s.endP.textBehind s.stop.runIdx s.stop.byteOffset

/-- The flat text in front of the selection. -/
def before (s : LongSelection d) : Text :=
  joined '\n' (texts (s.start.front d.blocks) ++ [s.kept])

/-- The flat text up to the end of the selection. -/
def upTo (s : LongSelection d) : Text :=
  joined '\n' (texts (s.stop.front d.blocks) ++
    [s.endP.textBefore s.stop.runIdx s.stop.byteOffset])

/-- The document with one paragraph in place of those the selection reaches over. -/
def withJoined (s : LongSelection d) (merged : Paragraph) : Document :=
  match s.start.cell, s.stop.cell with
  | some path, some endPath =>
    let part := bodyCell s.start.blockIdx path.row path.col
    match part.get? d with
    | none => d
    | some cell =>
      part.set { cell with
        paragraphs := cell.paragraphs.take path.paraIdx ++
          merged :: cell.paragraphs.drop (endPath.paraIdx + 1) } d
  | _, _ =>
    { d with
      blocks := d.blocks.take s.start.blockIdx ++
        .paragraph merged :: d.blocks.drop (s.stop.blockIdx + 1) }

/-- What deleting the selection should do: the flat text loses the selected range and nothing else,
one paragraph stands for those of the selection and the rest is unchanged, a section break of a
paragraph of which some text stays is kept, and the caret is between the two texts that are left. -/
structure Deletes (s : LongSelection d) (caret : Cursor) (d' : Document) : Prop where
  text : ∃ removed rest, d.plainText = s.before ++ removed ++ rest ∧ s.upTo = s.before ++ removed ∧
    d'.plainText = s.before ++ rest
  joins : ∃ merged, d' = s.withJoined merged ∧
    (s.kept ≠ [] → ∀ setup ∈ s.startP.sectionProperties, setup ∈ merged.sectionProperties) ∧
    (s.left ≠ [] → ∀ setup ∈ s.endP.sectionProperties, setup ∈ merged.sectionProperties) ∧
    caret.place = s.start.place ∧
    offsetInRuns merged.runs caret.runIdx caret.byteOffset = utf8Len s.kept

/-- Something stays at the front, or nothing is removed, or nothing follows; the section break of
the last paragraph goes with all its text or is that of the first one; no empty run is dropped in
front of the caret, or nothing is left of the last paragraph. -/
structure Clean (s : LongSelection d) : Prop where
  text : ¬ (s.before = [] ∧ s.left = [] ∧ s.upTo ≠ [] ∧ s.stop.behind d.blocks ≠ [])
  sections : s.left ≠ [] → ∀ setup ∈ s.endP.sectionProperties, setup ∈ s.startP.sectionProperties
  caret : (∀ r ∈ s.startP.runs.take s.start.runIdx, r.text ≠ []) ∨ s.left = []

end LongSelection

/-! ### Texts -/

lemma enumFlatMap_append {α β : Type*} (f : α → ℕ → List β) (l l' : List α) :
    enumFlatMap f (l ++ l') =
      enumFlatMap f l ++ (l'.zipIdx l.length).flatMap fun x => f x.1 x.2 := by
  rw [enumFlatMap, List.zipIdx_append, List.flatMap_append, Nat.zero_add]
  rfl

lemma texts_cons (x : Place × Paragraph) (l : List (Place × Paragraph)) :
    texts (x :: l) = x.2.plainText :: texts l := rfl

/-- The texts of a list of things that each stand for paragraphs. -/
lemma texts_zipIdx {α : Type} {f : α → ℕ → List (Place × Paragraph)} {g : α → List Text}
    (hg : ∀ x i, texts (f x i) = g x) (l : List α) (n : ℕ) :
    texts ((l.zipIdx n).flatMap fun x => f x.1 x.2) = l.flatMap g := by
  induction l generalizing n with
  | nil => rfl
  | cons x l ih =>
    rw [List.zipIdx_cons, List.flatMap_cons, texts_append, hg, ih, List.flatMap_cons]

/-- The texts of a body around two paragraphs of one list, and those after one paragraph has taken
the place of that part of the list. -/
lemma texts_span {α : Type} {f : α → ℕ → List (Place × Paragraph)} {g : α → List Text}
    (hg : ∀ x i, texts (f x i) = g x) {blocks : List Block} {pre post : List (Place × Paragraph)}
    {xs : List α} (hpl : places blocks = pre ++ enumFlatMap f xs ++ post) {i j : ℕ} (hij : i < j)
    {x y : α} (hx : xs[i]? = some x) (hy : xs[j]? = some y) (start stop : Cursor)
    {p q : Paragraph} (hp : f x i = [(start.textPlace, p)]) (hq : f y j = [(stop.textPlace, q)]) :
    ∃ front mid back, texts (start.front blocks) = front ∧
      texts (stop.front blocks) = front ++ p.plainText :: mid ∧
      texts (stop.behind blocks) = back ∧
      texts (places blocks) = front ++ p.plainText :: (mid ++ q.plainText :: back) ∧
      ∀ m blocks',
        places blocks' = pre ++ enumFlatMap f (xs.take i ++ m :: xs.drop (j + 1)) ++ post →
        texts (places blocks') = front ++ g m ++ back := by
  obtain ⟨l, rest, rfl, rfl⟩ := exists_append_of_getElem? hx
  obtain ⟨k, rfl⟩ : ∃ k, j = l.length + 1 + k := ⟨j - (l.length + 1), by omega⟩
  rw [List.getElem?_append_right (by omega), Nat.add_assoc, Nat.add_sub_cancel_left,
    Nat.add_comm 1, List.getElem?_cons_succ] at hy
  obtain ⟨m, r, rfl, rfl⟩ := exists_append_of_getElem? hy
  have hsplit : places blocks = (pre ++ enumFlatMap f l) ++ (start.textPlace, p) ::
      (((m.zipIdx (l.length + 1)).flatMap fun x => f x.1 x.2) ++ (stop.textPlace, q) ::
        (((r.zipIdx (l.length + 1 + m.length + 1)).flatMap fun x => f x.1 x.2) ++ post)) := by
    rw [hpl, enumFlatMap_append, List.zipIdx_cons, List.flatMap_cons, hp, List.zipIdx_append,
      List.flatMap_append, List.zipIdx_cons, List.flatMap_cons, hq]
    simp only [List.append_assoc, List.cons_append, List.nil_append]
  have hsplit' : places blocks = ((pre ++ enumFlatMap f l) ++ (start.textPlace, p) ::
      ((m.zipIdx (l.length + 1)).flatMap fun x => f x.1 x.2)) ++ (stop.textPlace, q) ::
        (((r.zipIdx (l.length + 1 + m.length + 1)).flatMap fun x => f x.1 x.2) ++ post) := by
    rw [hsplit]
    simp only [List.append_assoc, List.cons_append]
  have hl : texts (enumFlatMap f l) = l.flatMap g := texts_zipIdx hg l 0
  refine ⟨texts pre ++ l.flatMap g, m.flatMap g, r.flatMap g ++ texts post, ?_, ?_, ?_, ?_, ?_⟩
  · rw [(front_behind_eq hsplit).1, texts_append, hl]
  · rw [(front_behind_eq hsplit').1, texts_append, texts_append, hl, texts_cons, texts_zipIdx hg]
  · rw [(front_behind_eq hsplit').2, texts_append, texts_zipIdx hg]
  · rw [hsplit, texts_append, texts_append, hl, texts_cons, texts_append, texts_zipIdx hg,
      texts_cons, texts_append, texts_zipIdx hg]
  · intro z blocks' hpl'
    have hnew : (l ++ x :: (m ++ y :: r)).take l.length ++ z ::
        (l ++ x :: (m ++ y :: r)).drop (l.length + 1 + m.length + 1) = l ++ z :: r := by
      have hshape : l ++ x :: (m ++ y :: r) = (l ++ x :: (m ++ [y])) ++ r := by simp
      rw [List.take_left, hshape, List.drop_left' (by simp; omega)]
    rw [hnew] at hpl'
    rw [hpl', texts_append, texts_append, enumFlatMap_append, texts_append, hl, List.zipIdx_cons,
      List.flatMap_cons, texts_append, hg, texts_zipIdx hg]
    simp only [List.append_assoc]

namespace LongSelection

lemma paragraph_of_body {c : Cursor} (hcell : c.cell = none) {p : Paragraph}
    (h : paragraphRef d.blocks c = some p) :
    paragraphAt d.blocks c.blockIdx = some p ∧ d.blocks[c.blockIdx]? = some (.paragraph p) := by
  simp only [paragraphRef, hcell] at h
  refine ⟨h, ?_⟩
  simp only [paragraphAt] at h
  split at h
  · next q hq =>
    cases h
    exact hq
  · cases h

lemma paragraph_of_cell {c : Cursor} {row col i : ℕ} (hcell : c.cell = some ⟨row, col, i, none⟩)
    {p : Paragraph} (h : paragraphRef d.blocks c = some p) :
    ∃ cell, (bodyCell c.blockIdx row col).get? d = some cell ∧ cell.paragraphs[i]? = some p := by
  rw [← get?_paragraphMut, paragraphMut, hcell] at h
  obtain ⟨paragraphs, hparagraphs, hp⟩ := Option.bind_eq_some_iff.1 h
  obtain ⟨cell, hget, hcells⟩ := Option.bind_eq_some_iff.1 hparagraphs
  cases hcells
  exact ⟨cell, hget, hp⟩

/-- The texts of the body around the two ends of a selection, and those with one paragraph in its
place. -/
lemma texts_eq (s : LongSelection d) :
    ∃ front mid back, texts (s.start.front d.blocks) = front ∧
      texts (s.stop.front d.blocks) = front ++ s.startP.plainText :: mid ∧
      texts (s.stop.behind d.blocks) = back ∧
      texts (places d.blocks) = front ++ s.startP.plainText :: (mid ++ s.endP.plainText :: back) ∧
      ∀ merged, texts (places (s.withJoined merged).blocks) =
        front ++ merged.plainText :: back := by
  rcases s.spans with ⟨hstart, hstop, hlt⟩ | ⟨row, col, i, j, hblock, hstart, hstop, hlt⟩
  · have hx := (paragraph_of_body hstart s.startRef).2
    have hy := (paragraph_of_body hstop s.stopRef).2
    have hpl : places d.blocks = [] ++ enumFlatMap Block.places d.blocks ++ [] := by simp [places]
    have hp : Block.places (.paragraph s.startP) s.start.blockIdx =
        [(s.start.textPlace, s.startP)] := by
      rw [Block.places, Cursor.textPlace, hstart]
      rfl
    have hq : Block.places (.paragraph s.endP) s.stop.blockIdx = [(s.stop.textPlace, s.endP)] := by
      rw [Block.places, Cursor.textPlace, hstop]
      rfl
    obtain ⟨front, mid, back, h₁, h₂, h₃, h₄, h₅⟩ :=
      texts_span Block.texts_places hpl hlt hx hy s.start s.stop hp hq
    refine ⟨front, mid, back, h₁, h₂, h₃, h₄, fun merged => ?_⟩
    have hnew := h₅ (.paragraph merged) (s.withJoined merged).blocks (by
      simp [withJoined, hstart, places])
    simpa [Block.texts] using hnew
  · obtain ⟨cell, hget, hx⟩ := paragraph_of_cell hstart s.startRef
    obtain ⟨cell', hget', hy⟩ := paragraph_of_cell hstop s.stopRef
    rw [← hblock] at hget'
    obtain rfl := Option.some.inj (hget.symm.trans hget')
    have hset (cell' : TableCell) : ((bodyCell s.start.blockIdx row col).set cell' d).blocks =
        (cellIn s.start.blockIdx row col).set cell' d.blocks := by
      rw [bodyCell_eq, Focus.set_comp rfl]
      rfl
    have hnew (merged : Paragraph) : (s.withJoined merged).blocks =
        (cellIn s.start.blockIdx row col).set { cell with
          paragraphs := cell.paragraphs.take i ++ merged :: cell.paragraphs.drop (j + 1) }
          d.blocks := by
      rw [← hset]
      simp only [withJoined, hstart, hstop, hget]
    rw [bodyCell_eq] at hget
    obtain ⟨pre, post, hpl, hwin⟩ := window_cellIn s.start.blockIdx row col hget
    have hg (p : Paragraph) (pi : ℕ) :
        texts [((s.start.blockIdx, some (CellPath.mk row col pi none)), p)] = [p.plainText] := rfl
    obtain ⟨front, mid, back, h₁, h₂, h₃, h₄, h₅⟩ :=
      texts_span hg hpl hlt hx hy s.start s.stop
        (by rw [Cursor.textPlace, hstart]; rfl)
        (by rw [Cursor.textPlace, hstop, ← hblock]; rfl)
    refine ⟨front, mid, back, h₁, h₂, h₃, h₄, fun merged => ?_⟩
    have htexts := h₅ merged (s.withJoined merged).blocks (by
      rw [hnew, hwin]
      rfl)
    simpa using htexts

/-- The paragraph that takes the place of the selected ones. -/
def merged (s : LongSelection d) : Paragraph :=
  s.startP.joined ((joinRuns s.startP s.endP s.start s.stop).toOption.getD [])

lemma joinRuns_merged (s : LongSelection d) :
    joinRuns s.startP s.endP s.start s.stop = .ok s.merged.runs := by
  obtain ⟨front, back', hcut⟩ := s.startIn.cut
  obtain ⟨front', back, hcut'⟩ := s.stopIn.cut
  rw [merged, joinRuns_eq_ok hcut hcut']
  rfl

lemma merged_eq (s : LongSelection d) : s.merged = s.startP.joined s.merged.runs := rfl

lemma start_ne_stop (s : LongSelection d) : s.start.sameParagraph s.stop = false := by
  rcases s.spans with ⟨-, -, hlt⟩ | ⟨row, col, i, j, -, hstart, hstop, hlt⟩
  · simp [Cursor.sameParagraph, hlt.ne]
  · simp [Cursor.sameParagraph, hstart, hstop, hlt.ne]

/-- The blocks that deleting the selection gives. -/
lemma next_eq (s : LongSelection d) :
    (if s.start.sameCell s.stop then deleteMultiCellParagraph d s.start s.stop
      else if s.start.cell.isSome ∨ s.stop.cell.isSome then .error .editOutOfBounds
      else deleteMultiParagraph d.blocks s.start s.stop) =
      .ok (s.withJoined s.merged).blocks ∧
    s.withJoined s.merged = { d with blocks := (s.withJoined s.merged).blocks } := by
  rcases s.spans with ⟨hstart, hstop, hlt⟩ | ⟨row, col, i, j, hblock, hstart, hstop, hlt⟩
  · have hx := paragraph_of_body hstart s.startRef
    have hy := paragraph_of_body hstop s.stopRef
    have hlen := (List.getElem?_eq_some_iff.1 hy.2).1
    constructor
    · simp [Cursor.sameCell, hstart, deleteMultiParagraph, hx.1, hy.1, s.joinRuns_merged, hstop,
        bind, Except.bind, pure, Except.pure, replaceSpan_eq hlt.le hlen, withJoined,
        ← s.merged_eq]
    · simp [withJoined, hstart]
  · obtain ⟨cell, hget, hx⟩ := paragraph_of_cell hstart s.startRef
    obtain ⟨cell', hget', hy⟩ := paragraph_of_cell hstop s.stopRef
    rw [← hblock] at hget'
    obtain rfl := Option.some.inj (hget.symm.trans hget')
    have hlen := (List.getElem?_eq_some_iff.1 hy).1
    have hsame : s.start.sameCell s.stop = true := by simp [Cursor.sameCell, hstart, hstop, hblock]
    have hwith : s.withJoined s.merged = (bodyCell s.start.blockIdx row col).set { cell with
        paragraphs := cell.paragraphs.take i ++ s.merged :: cell.paragraphs.drop (j + 1) } d := by
      simp only [withJoined, hstart, hstop, hget]
    rw [if_pos hsame]
    constructor
    · refine CellEdit.deleteMultiCellParagraph_eq_ok_iff.2 ⟨hsame, _, _, cell, _, hstart, hstop,
        hget, TableCell.joinParagraphs_eq_ok_iff.2 ⟨_, _, _, hx, hy, s.joinRuns_merged, rfl⟩, ?_⟩
      rw [hwith, replaceSpan_eq hlt.le hlen]
      rfl
    · rw [hwith, bodyCell_eq, Focus.set_comp rfl]
      rfl

lemma applies_replaceBlocks (d : Document) (blocks : List Block) :
    Applies (.replaceBlocks blocks) d (.replaceBlocks d.blocks) { d with blocks } := rfl

/-- Deleting the selection always succeeds. -/
lemma run_delete (s : LongSelection d) (st : UndoStack) :
    ∃ st', (deleteSelectionIfNeeded s.sel).run (st, d) =
      .ok s.start (st', s.withJoined s.merged) := by
  have hne : s.sel.anchor ≠ s.sel.head := by
    intro heq
    have hself : s.sel.normalized = (s.sel.head, s.sel.head) := by
      rw [Selection.normalized, heq]
      split_ifs <;> rfl
    have hends := s.normalized.symm.trans hself
    obtain ⟨hstart, hstop⟩ := Prod.mk.inj hends
    have hdiff := s.start_ne_stop
    rw [hstart, hstop] at hdiff
    simp [Cursor.sameParagraph] at hdiff
  obtain ⟨hnext, hwith⟩ := s.next_eq
  have happ : Applies (.replaceBlocks (s.withJoined s.merged).blocks) d (.replaceBlocks d.blocks)
      (s.withJoined s.merged) := by
    rw [hwith]
    exact applies_replaceBlocks d _
  obtain ⟨st', hpush⟩ : ∃ st', (UndoStack.push
      (.replaceBlocks (s.withJoined s.merged).blocks)).run (st, d) =
        .ok () (st', s.withJoined s.merged) :=
    ⟨_, UndoStack.push_eq_ok_iff.2 ⟨_, happ, rfl⟩⟩
  refine ⟨st', ?_⟩
  simp [deleteSelectionIfNeeded, hne, s.normalized, s.start_ne_stop, hnext, hpush]

/-! ### What a deletion does -/

lemma withJoined_injective (s : LongSelection d) {m m' : Paragraph}
    (h : s.withJoined m = s.withJoined m') : m = m' := by
  rcases s.spans with ⟨hstart, hstop, -⟩ | ⟨row, col, i, j, hblock, hstart, hstop, -⟩
  · simp only [withJoined, hstart] at h
    have hblocks := List.append_cancel_left (congrArg Document.blocks h)
    exact Block.paragraph.inj (List.cons.inj hblocks).1
  · obtain ⟨cell, hget, -⟩ := paragraph_of_cell hstart s.startRef
    simp only [withJoined, hstart, hstop, hget] at h
    have hcell := (Focus.get?_set _ _ hget).symm.trans
      ((congrArg (bodyCell s.start.blockIdx row col).get? h).trans (Focus.get?_set _ _ hget))
    have hparagraphs := List.append_cancel_left
      (congrArg TableCell.paragraphs (Option.some.inj hcell))
    exact (List.cons.inj hparagraphs).1

lemma text_iff (s : LongSelection d) :
    (∃ removed rest, d.plainText = s.before ++ removed ++ rest ∧ s.upTo = s.before ++ removed ∧
      (s.withJoined s.merged).plainText = s.before ++ rest) ↔
    ¬ (s.before = [] ∧ s.left = [] ∧ s.upTo ≠ [] ∧ s.stop.behind d.blocks ≠ []) := by
  obtain ⟨front, back', hcut⟩ := s.startIn.cut
  obtain ⟨front', back, hcut'⟩ := s.stopIn.cut
  obtain ⟨pre, mid, post, hpre, hstop, hpost, hall, hnew⟩ := s.texts_eq
  have hkept : s.kept = runsText front := hcut.textBefore_eq
  have hleft : s.left = runsText back := hcut'.textBehind_eq
  have hmerged : s.merged.plainText = s.kept ++ s.left := by
    rw [merged, joinRuns_eq_ok hcut hcut', hkept, hleft]
    exact runsText_joinedRuns front back
  have hbehind : s.stop.behind d.blocks ≠ [] ↔ post ≠ [] := by
    rw [← hpost, texts, Ne, Ne, List.map_eq_nil_iff]
  rw [before, upTo, hpre, hstop, hbehind, Document.plainText, Document.plainText, bodyText_eq,
    bodyText_eq, hall, hnew, hmerged, ← hcut.text_eq, ← hcut'.text_eq, ← hkept, ← hleft,
    hcut'.textBefore_eq]
  have hremove := @joined_remove_iff '\n' pre mid post s.kept (runsText back') s.left
    (runsText front')
  simpa using hremove

lemma caret_iff (s : LongSelection d) :
    offsetInRuns s.merged.runs s.start.runIdx s.start.byteOffset = utf8Len s.kept ↔
      (∀ r ∈ s.startP.runs.take s.start.runIdx, r.text ≠ []) ∨ s.left = [] := by
  obtain ⟨front, back', hcut⟩ := s.startIn.cut
  obtain ⟨front', back, hcut'⟩ := s.stopIn.cut
  have hkept : s.kept = runsText front := hcut.textBefore_eq
  have hleft : s.left = runsText back := hcut'.textBehind_eq
  rw [merged, joinRuns_eq_ok hcut hcut', hkept, hleft]
  exact offset_joinedRuns_iff hcut

/-- Deleting a selection over several paragraphs succeeds with the caret at its start, and does what
it should exactly if the selection is clean. -/
theorem deletes_iff (d : Document) (s : LongSelection d) (st : UndoStack) :
    ∃ caret st' d', (deleteSelectionIfNeeded s.sel).run (st, d) = .ok caret (st', d') ∧
      (s.Deletes caret d' ↔ s.Clean) := by
  obtain ⟨st', hrun⟩ := s.run_delete st
  refine ⟨s.start, st', _, hrun, ?_, ?_⟩
  · rintro ⟨htext, merged, hwith, -, hleft, -, hcaret⟩
    obtain rfl := s.withJoined_injective hwith
    exact ⟨s.text_iff.1 htext, hleft, s.caret_iff.1 hcaret⟩
  · rintro ⟨htext, hsections, hcaret⟩
    exact ⟨s.text_iff.2 htext, s.merged, rfl, fun _ setup hsetup => hsetup, hsections, rfl,
      s.caret_iff.2 hcaret⟩

end LongSelection

/-- The section break of the paragraph in which the selection ends is lost although its text `D`
stays. -/
theorem not_deletes_section : ¬ ∀ (d : Document) (s : LongSelection d) (st : UndoStack),
    ∃ caret st' d', (deleteSelectionIfNeeded s.sel).run (st, d) = .ok caret (st', d') ∧
      s.Deletes caret d' := by
  intro h
  let startP : Paragraph := { runs := [{ text := ['A', 'B'] }] }
  let endP : Paragraph := { runs := [{ text := ['C', 'D'] }], sectionProperties := some {} }
  let d : Document := { blocks := [.paragraph startP, .paragraph endP] }
  let start : Cursor := { byteOffset := 1 }
  let stop : Cursor := { blockIdx := 1, byteOffset := 1 }
  obtain ⟨caret, st', d', hrun, -, merged, hwith, -, hleft, -⟩ := h d
    { sel := ⟨start, stop⟩, start, stop, normalized := rfl,
      spans := .inl ⟨rfl, rfl, Nat.zero_lt_one⟩, startP, endP, startRef := rfl, stopRef := rfl,
      startIn := .inr ⟨_, rfl, ['A'], ['B'], rfl, rfl⟩
      stopIn := .inr ⟨_, rfl, ['C'], ['D'], rfl, rfl⟩ } {}
  cases hrun
  obtain rfl := Block.paragraph.inj (List.cons.inj (congrArg Document.blocks hwith)).1
  have hkept : ({} : PageSetup) ∈ (none : Option PageSetup) :=
    hleft (List.cons_ne_nil 'D' []) {} rfl
  cases hkept

end Orchid.Document
