import Orchid.Document.Inverse

/-!
# What a command does to the flat text

A command that changes the flat text puts other texts in the place of some texts in front; the rest
of the paragraph it ends in and the paragraphs behind it stay.
-/

namespace Orchid.Document

open Lib
open String (utf8Len)

/-! ### Changes -/

/-- A change of the paragraph texts: `old` are the texts through the end of the change, `new` what
takes their place, `rest` is the rest of the paragraph the change ends in. -/
structure TextEdit where
  old : List Text
  new : List Text
  rest : Text
  behind : List Text
  rest_eq_nil : rest = [] ∨ old ≠ [] ∧ new ≠ []

@[simp] lemma modifyLast_append_nil (l : List Text) : l.modifyLast (· ++ []) = l := by
  rcases List.eq_nil_or_concat l with rfl | ⟨l, t, rfl⟩
  · rfl
  · rw [List.concat_eq_append, List.modifyLast_concat, List.append_nil]

namespace TextEdit

/-- The texts before the change. -/
def before (e : TextEdit) : List Text := e.old.modifyLast (· ++ e.rest) ++ e.behind

/-- The texts after the change. -/
def after (e : TextEdit) : List Text := e.new.modifyLast (· ++ e.rest) ++ e.behind

/-- Where the change ends in the flat text. -/
def stop (e : TextEdit) : ℕ := utf8Len (joined '\n' e.old)

/-- A change that keeps the length of the flat text keeps what stands behind it in its place. -/
lemma sliceBytes_after (e : TextEdit)
    (h : utf8Len (joined '\n' e.after) = utf8Len (joined '\n' e.before)) {n m : ℕ}
    (hn : e.stop ≤ n) :
    sliceBytes (joined '\n' e.after) n m = sliceBytes (joined '\n' e.before) n m := by
  obtain ⟨v, hafter, hbefore, hlen⟩ := joined_same_behind h
  rw [joined_modifyLast (e.rest_eq_nil.imp id And.right),
    joined_modifyLast (e.rest_eq_nil.imp id And.left), String.utf8Len_append,
    String.utf8Len_append] at hlen
  have hfront : utf8Len (joined '\n' e.new) = utf8Len (joined '\n' e.old) := Nat.add_right_cancel hlen
  rw [after, before, hafter, hbefore, joined_modifyLast (e.rest_eq_nil.imp id And.right),
    joined_modifyLast (e.rest_eq_nil.imp id And.left), List.append_assoc, List.append_assoc]
  exact sliceBytes_append_congr hfront (hfront.trans_le hn)

end TextEdit

/-! ### The change of a command -/

/-- The text of a paragraph before and after a cursor in it. -/
def Paragraph.textAround (p : Paragraph) (c : Cursor) : Option (Text × Text) :=
  if p.runs.isEmpty then some ([], [])
  else do
    let run ← p.runs[c.runIdx]?
    let (u, v) ← splitAtByte run.text c.byteOffset
    some ((p.runs.take c.runIdx).flatMap Run.text ++ u,
      v ++ (p.runs.drop (c.runIdx + 1)).flatMap Run.text)

/-- `text` takes the place of what stands between two cursors of a paragraph. -/
def paragraphEdit (d : Document) (start stop : Cursor) (text : Text) : Option TextEdit := do
  let p ← paragraphRef d.blocks start
  let (u, _) ← p.textAround start
  let (w, v) ← p.textAround stop
  let front := texts (start.front d.blocks)
  some ⟨front ++ [w], front ++ [u ++ text], v, texts (start.behind d.blocks), by simp⟩

/-- Some blocks take the place of the `n` blocks from index `i` on. -/
def blocksEdit (d : Document) (i n : ℕ) (blocks : List Block) : TextEdit :=
  ⟨(d.blocks.take (i + n)).flatMap Block.texts, (d.blocks.take i ++ blocks).flatMap Block.texts, [],
    (d.blocks.drop (i + n)).flatMap Block.texts, .inl rfl⟩

/-- Some rows take the place of the `n` rows from index `r` on in the table at block `i`. -/
def rowsEdit (d : Document) (i : ℕ) (t : Table) (r n : ℕ) (rows : List TableRow) : TextEdit :=
  ⟨(d.blocks.take i).flatMap Block.texts ++ (t.rows.take (r + n)).flatMap TableRow.texts,
    (d.blocks.take i).flatMap Block.texts ++ (t.rows.take r ++ rows).flatMap TableRow.texts, [],
    (t.rows.drop (r + n)).flatMap TableRow.texts ++ (d.blocks.drop (i + 1)).flatMap Block.texts,
    .inl rfl⟩

/-- The change of the flat text by a command that inserts, deletes or replaces text. A column runs
through the whole table. -/
def textEdit (d : Document) : EditCommand → Option TextEdit
  | .insertText pos text => paragraphEdit d pos pos text
  | .deleteRange range => paragraphEdit d range.normalized.1 range.normalized.2 []
  | .insertTable i t => some (blocksEdit d (min i d.blocks.length) 0 [.table t])
  | .insertTableRow i r =>
    (tableAt d.blocks i).map fun t => rowsEdit d i t (min r t.rows.length) 0 [blankRow t]
  | .restoreTableRow i r row =>
    (tableAt d.blocks i).map fun t => rowsEdit d i t (min r t.rows.length) 0 [row]
  | .deleteTableRow i r => (tableAt d.blocks i).map fun t => rowsEdit d i t r 1 []
  | .insertTableColumn i c => (tableAt d.blocks i).map fun t =>
    blocksEdit d i 1 [.table (addColumn t c (blankColumn t) (blankWidth t c))]
  | .restoreTableColumn i c cells width => (tableAt d.blocks i).map fun t =>
    blocksEdit d i 1 [.table (addColumn t c cells width)]
  | .deleteTableColumn i c => (tableAt d.blocks i).map fun t =>
    blocksEdit d i 1 [.table (eraseColumn t c)]
  | .replaceParagraph i p => some (blocksEdit d i 1 [.paragraph p])
  | .replaceBlock i b => some (blocksEdit d i 1 [b])
  | .replaceBlocks blocks => some (blocksEdit d 0 d.blocks.length blocks)
  | .removeBlock i => some (blocksEdit d i 1 [])
  | _ => none

/-- The body has the texts after a change in the place of those before it, and nothing else is
changed. -/
def Changes (e : TextEdit) (d d' : Document) : Prop :=
  ∃ blocks, d' = { d with blocks } ∧ d.blocks.flatMap Block.texts = e.before ∧
    blocks.flatMap Block.texts = e.after

/-! ### Text commands -/

section Runs

variable {p p' : Paragraph} {i : ℕ} {run : Run}

lemma plainText_set (hrun : p.runs[i]? = some run) (run' : Run) :
    (p.withRuns (p.runs.set i run')).plainText =
      (p.runs.take i).flatMap Run.text ++ run'.text ++ (p.runs.drop (i + 1)).flatMap Run.text := by
  obtain ⟨hi, -⟩ := List.getElem?_eq_some_iff.mp hrun
  rw [Paragraph.plainText, Paragraph.runs_withRuns, List.set_eq_take_append_cons_drop, if_pos hi]
  simp

lemma plainText_split (hrun : p.runs[i]? = some run) :
    p.plainText =
      (p.runs.take i).flatMap Run.text ++ run.text ++ (p.runs.drop (i + 1)).flatMap Run.text := by
  obtain ⟨hi, rfl⟩ := List.getElem?_eq_some_iff.mp hrun
  rw [← plainText_set hrun, List.set_getElem_self hi]
  rfl

lemma textAround_eq {c : Cursor} {u v : Text} (hrun : p.runs[c.runIdx]? = some run)
    (ht : run.text = u ++ v) (hu : utf8Len u = c.byteOffset) :
    p.textAround c = some ((p.runs.take c.runIdx).flatMap Run.text ++ u,
      v ++ (p.runs.drop (c.runIdx + 1)).flatMap Run.text) := by
  have hne : p.runs ≠ [] := by
    intro h
    simp [h] at hrun
  have hsplit : splitAtByte run.text c.byteOffset = some (u, v) :=
    splitAtByte_eq_some_iff.mpr ⟨ht, hu⟩
  simp [Paragraph.textAround, hne, hrun, hsplit]

/-- The change of a paragraph by a text command. -/
def ParagraphChanges (start stop : Cursor) (text : Text) (p p' : Paragraph) : Prop :=
  ∃ u u' w v, p.textAround start = some (u, u') ∧ p.textAround stop = some (w, v) ∧
    p.plainText = w ++ v ∧ p'.plainText = u ++ text ++ v

lemma paragraphChanges_insert {pos : Cursor} {text : Text}
    (h : (insertTextInParagraph pos text).run p = .ok () p') :
    ParagraphChanges pos pos text p p' := by
  by_cases hne : p.runs = []
  · rw [insertTextInParagraph_nil hne] at h
    cases h
    exact ⟨[], [], [], [], by simp [Paragraph.textAround, hne],
      by simp [Paragraph.textAround, hne], by simp [Paragraph.plainText, hne],
      by simp [Paragraph.plainText]⟩
  · obtain ⟨run, u, v, hrun, ht, hu, rfl⟩ := (insertTextInParagraph_eq_ok_iff hne).mp h
    have haround := textAround_eq hrun ht hu
    refine ⟨_, _, _, _, haround, haround, ?_, ?_⟩
    · simp [plainText_split hrun, ht]
    · simp [plainText_set hrun]

lemma paragraphChanges_delete {start stop : Cursor}
    (h : (deleteInParagraph start stop).run p = .ok () p') :
    ParagraphChanges start stop [] p p' := by
  by_cases heq : start.runIdx = stop.runIdx
  · obtain ⟨run, u, s, w, hrun, ht, hu, hs, rfl⟩ := (deleteInParagraph_eq_ok_iff heq).mp h
    have hstart := textAround_eq (v := s ++ w) hrun (by simp [ht]) hu
    have hstop := textAround_eq (u := u ++ s) (v := w) (heq ▸ hrun) ht (by simp [hu, hs])
    refine ⟨_, _, _, _, hstart, hstop, ?_, ?_⟩
    · simp [plainText_split hrun, ht, ← heq]
    · simp [plainText_set hrun, ← heq]
  · obtain ⟨first, last, kept, cut, dropped, rest, hlt, hfirst, hlast, ht, hu, ht', hu', rfl⟩ :=
      deleteInParagraph_across heq h
    have hstart := textAround_eq hfirst ht hu
    have hstop := textAround_eq hlast ht' hu'
    refine ⟨_, _, _, _, hstart, hstop, ?_, ?_⟩
    · simp [plainText_split hlast, ht']
    · simp [Paragraph.plainText]

end Runs

variable {d d' : Document} {i : EditCommand}

/-- A paragraph that changes between two cursors. -/
lemma changes_paragraph {start stop : Cursor} {text : Text} {p p' : Paragraph}
    (hp : paragraphRef d.blocks start = some p) (hchange : ParagraphChanges start stop text p p') :
    ∃ e, paragraphEdit d start stop text = some e ∧
      Changes e d ((paragraphMut start).set p' d) := by
  obtain ⟨u, u', w, v, hstart, hstop, hplain, hplain'⟩ := hchange
  refine ⟨⟨texts (start.front d.blocks) ++ [w], texts (start.front d.blocks) ++ [u ++ text], v,
    texts (start.behind d.blocks), by simp⟩, by simp [paragraphEdit, hp, hstart, hstop], ?_⟩
  rw [← get?_paragraphMut] at hp
  obtain ⟨hpl, hset⟩ := places_set_paragraphMut hp
  obtain ⟨blocks, heq, hpl'⟩ := hset p'
  refine ⟨blocks, heq, ?_, ?_⟩
  · rw [← texts_places, TextEdit.before, List.modifyLast_concat, ← hplain]
    conv_lhs => rw [hpl]
    simp [texts]
  · rw [← texts_places, hpl', TextEdit.after, List.modifyLast_concat, ← hplain']
    simp [texts]

lemma changes_insertText {pos : Cursor} {text : Text}
    (h : (applyCommand (.insertText pos text)).run d = .ok i d') :
    ∃ e, textEdit d (.insertText pos text) = some e ∧ Changes e d d' := by
  obtain ⟨-, p, p', hp, hins, rfl⟩ := insertText_eq_ok_iff.mp h
  exact changes_paragraph hp (paragraphChanges_insert hins)

lemma changes_deleteRange {range : Selection}
    (h : (applyCommand (.deleteRange range)).run d = .ok i d') :
    ∃ e, textEdit d (.deleteRange range) = some e ∧ Changes e d d' := by
  obtain ⟨-, p, p', t, hp, -, -, hdel, rfl⟩ := (deleteRange_eq_ok_iff rfl).mp h
  exact changes_paragraph hp (paragraphChanges_delete hdel)

/-! ### Blocks and tables -/

lemma changes_blocks {bi n : ℕ} {new blocks : List Block}
    (h : blocks = d.blocks.take bi ++ new ++ d.blocks.drop (bi + n)) :
    Changes (blocksEdit d bi n new) d { d with blocks } := by
  refine ⟨blocks, rfl, ?_, ?_⟩
  · simp only [TextEdit.before, blocksEdit, modifyLast_append_nil]
    rw [← List.flatMap_append, List.take_append_drop]
  · simp only [TextEdit.after, blocksEdit, modifyLast_append_nil]
    rw [h, List.flatMap_append]

/-- A block that takes the place of another one. -/
lemma changes_set {bi : ℕ} (hbi : bi < d.blocks.length) (block : Block) :
    Changes (blocksEdit d bi 1 [block]) d { d with blocks := d.blocks.set bi block } := by
  refine changes_blocks ?_
  rw [List.set_eq_take_append_cons_drop, if_pos hbi]
  simp

lemma set_bodyTable {bi : ℕ} {t : Table} (h : (bodyTable bi).get? d = some t) (t' : Table) :
    bi < d.blocks.length ∧ d.blocks[bi]? = some (.table t) ∧
      (bodyTable bi).set t' d = { d with blocks := d.blocks.set bi (.table t') } := by
  obtain ⟨block, hblock, htable⟩ := Option.bind_eq_some_iff.mp h
  have hget : d.blocks[bi]? = some block := hblock
  obtain rfl : block = .table t := by
    cases block with
    | table q =>
      obtain rfl : q = t := by simpa [asTable, Focus.case] using htable
      rfl
    | paragraph p => simp [asTable, Focus.case] at htable
    | image i => simp [asTable, Focus.case] at htable
  obtain ⟨hlt, -⟩ := List.getElem?_eq_some_iff.mp hget
  exact ⟨hlt, hget, Focus.set_comp hblock t'⟩

/-- A table that is changed as a whole. -/
lemma changes_table {bi : ℕ} {t : Table} (h : (bodyTable bi).get? d = some t) (t' : Table) :
    Changes (blocksEdit d bi 1 [.table t']) d ((bodyTable bi).set t' d) := by
  obtain ⟨hlt, -, hset⟩ := set_bodyTable h t'
  rw [hset]
  exact changes_set hlt _

/-- A table in which some rows take the place of others. -/
lemma changes_rows {bi r n : ℕ} {t t' : Table} {rows : List TableRow}
    (h : (bodyTable bi).get? d = some t)
    (hrows : t'.rows = t.rows.take r ++ rows ++ t.rows.drop (r + n)) :
    Changes (rowsEdit d bi t r n rows) d ((bodyTable bi).set t' d) := by
  obtain ⟨hlt, hget, hset⟩ := set_bodyTable h t'
  refine ⟨_, hset, ?_, ?_⟩
  · obtain ⟨hlt, hget⟩ := List.getElem?_eq_some_iff.mp hget
    conv_lhs => rw [← List.take_append_drop bi d.blocks, List.drop_eq_getElem_cons hlt, hget]
    have hsplit : t.rows.flatMap TableRow.texts = (t.rows.take (r + n)).flatMap TableRow.texts ++
        (t.rows.drop (r + n)).flatMap TableRow.texts := by
      rw [← List.flatMap_append, List.take_append_drop]
    simp only [TextEdit.before, rowsEdit, modifyLast_append_nil, List.flatMap_append,
      List.flatMap_cons, Block.texts, hsplit, List.append_assoc]
  · rw [List.set_eq_take_append_cons_drop, if_pos hlt]
    simp only [TextEdit.after, rowsEdit, modifyLast_append_nil, List.flatMap_append,
      List.flatMap_cons, Block.texts, hrows, List.append_assoc]

end Orchid.Document
