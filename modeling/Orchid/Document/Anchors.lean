import Orchid.Document.TextChange
import Orchid.Document.UndoRuns

/-!
# Bookmarks and comment ranges

Bookmarks and comments are anchored at byte offsets of the flat text. No command but those that add
or remove an anchor touches these offsets, so they keep their meaning exactly as long as the text in
front of them keeps its length.
-/

namespace Orchid.Document

open Lib
open String (utf8Len)

/-! ### What anchors should do -/

/-- The anchored spans; a bookmark is an empty one. -/
def anchors (d : Document) : List (ℕ × ℕ) :=
  d.bookmarks.map (fun b => (b.plainOffset, b.plainOffset)) ++
    d.commentRanges.map fun r => (r.startPlain, r.endPlain)

/-- Every anchored span lies in the flat text. -/
def AnchorsInText (d : Document) : Prop :=
  ∀ x ∈ anchors d, x.1 ≤ utf8Len d.plainText ∧ x.2 ≤ utf8Len d.plainText

/-- A span that starts behind the change of a command moves with the text it covers. -/
def ShiftsAnchors (cmd : EditCommand) (d d' : Document) : Prop :=
  ∀ e, textEdit d cmd = some e → ∀ (k : ℕ) (x : ℕ × ℕ), (anchors d)[k]? = some x → e.stop < x.1 →
    ∃ x' : ℕ × ℕ, (anchors d')[k]? = some x' ∧
      x'.1 + utf8Len d.plainText = x.1 + utf8Len d'.plainText ∧
      x'.2 + utf8Len d.plainText = x.2 + utf8Len d'.plainText ∧
      sliceBytes d'.plainText x'.1 x'.2 = sliceBytes d.plainText x.1 x.2

/-- The anchored spans that a command adds. -/
def added : EditCommand → List (ℕ × ℕ)
  | .addBookmark b => [(b.plainOffset, b.plainOffset)]
  | .addComment _ r => [(r.startPlain, r.endPlain)]
  | _ => []

/-- The offsets still mean the same after a command: a new span lies in the text, the text that is
left has room for every span, and the text keeps its length or no span starts behind the change. -/
structure AnchorSafe (d : Document) (cmd : EditCommand) : Prop where
  added_le : ∀ x ∈ added cmd, x.1 ≤ utf8Len d.plainText ∧ x.2 ≤ utf8Len d.plainText
  room : ∀ e, textEdit d cmd = some e → ∀ x ∈ anchors d,
    x.1 ≤ utf8Len (joined '\n' e.after) ∧ x.2 ≤ utf8Len (joined '\n' e.after)
  stays : ∀ e, textEdit d cmd = some e →
    utf8Len (joined '\n' e.after) = utf8Len d.plainText ∨ ∀ x ∈ anchors d, x.1 ≤ e.stop

lemma mem_anchors {d : Document} {x : ℕ × ℕ} : x ∈ anchors d ↔
    (∃ b ∈ d.bookmarks, (b.plainOffset, b.plainOffset) = x) ∨
      ∃ r ∈ d.commentRanges, (r.startPlain, r.endPlain) = x := by
  simp [anchors]

/-! ### What commands do -/

/-- A command changes the texts and leaves the anchors alone, or leaves the texts alone and changes
the anchors by those it adds or removes. -/
inductive Effect (d : Document) (cmd : EditCommand) (d' : Document) : Prop where
  | text {e : TextEdit} (he : textEdit d cmd = some e) (hadded : added cmd = [])
      (hchange : Changes e d d')
  | anchor (he : textEdit d cmd = none)
      (htexts : d'.blocks.flatMap Block.texts = d.blocks.flatMap Block.texts)
      (hsub : ∀ x ∈ anchors d', x ∈ anchors d ∨ x ∈ added cmd)
      (hadded : ∀ x ∈ added cmd, x ∈ anchors d')

section Effects

variable {d d' : Document} {cmd inverse : EditCommand}

lemma effect_of_keepsTexts (h : KeepsTexts d d') (he : textEdit d cmd = none)
    (hadded : added cmd = []) : Effect d cmd d' := by
  obtain ⟨blocks, rfl, htexts⟩ := h
  exact .anchor he htexts (fun x hx => .inl hx) (by simp [hadded])

/-- A part beside the body and the anchors. -/
lemma effect_of_frame (hblocks : d'.blocks = d.blocks) (hanchors : anchors d' = anchors d)
    (he : textEdit d cmd = none) (hadded : added cmd = []) : Effect d cmd d' :=
  .anchor he (by rw [hblocks]) (fun x hx => .inl (hanchors ▸ hx)) (by simp [hadded])

lemma effect_replace {α : Type} {f : Focus Document α} {new : α} {inv : α → EditCommand}
    (h : (f.borrow .editOutOfBounds (replace new inv)).run d = .ok inverse d')
    (hframe : ∀ a, (f.set a d).blocks = d.blocks ∧ anchors (f.set a d) = anchors d)
    (he : textEdit d cmd = none) (hadded : added cmd = []) : Effect d cmd d' := by
  obtain ⟨a, a', -, -, rfl⟩ := f.borrow_eq_ok.mp h
  exact effect_of_frame (hframe a').1 (hframe a').2 he hadded

/-- A paragraph whose runs stay. -/
lemma effect_paragraph {i : ℕ} {x : Edit Paragraph EditCommand}
    (h : ((bodyParagraph i).borrow .editOutOfBounds x).run d = .ok inverse d')
    (hx : Relates SameText x) (he : textEdit d cmd = none) (hadded : added cmd = []) :
    Effect d cmd d' := by
  obtain ⟨p, p', hget, hrun, rfl⟩ := (bodyParagraph i).borrow_eq_ok.mp h
  have hget' : (paragraphMut ⟨i, none, 0, 0⟩).get? d = some p := hget
  exact effect_of_keepsTexts (keepsTexts_set_paragraphMut hget' (hx hrun)) he hadded

/-- Anchors that are added or removed. -/
lemma effect_of_anchors (hblocks : d'.blocks = d.blocks)
    (hbookmarks : ∀ b ∈ d'.bookmarks, b ∈ d.bookmarks ∨ (b.plainOffset, b.plainOffset) ∈ added cmd)
    (hranges : ∀ r ∈ d'.commentRanges,
      r ∈ d.commentRanges ∨ (r.startPlain, r.endPlain) ∈ added cmd)
    (he : textEdit d cmd = none) (hadded : ∀ x ∈ added cmd, x ∈ anchors d') :
    Effect d cmd d' := by
  refine .anchor he (by rw [hblocks]) (fun x hx => ?_) hadded
  rcases mem_anchors.mp hx with ⟨b, hb, rfl⟩ | ⟨r, hr, rfl⟩
  · exact (hbookmarks b hb).imp (fun h => mem_anchors.mpr (.inl ⟨b, h, rfl⟩)) id
  · exact (hranges r hr).imp (fun h => mem_anchors.mpr (.inr ⟨r, h, rfl⟩)) id

lemma effect_insertBlock {bi : ℕ} {block : Block}
    (h : (blocksOf.borrow .editOutOfBounds (insertBlock bi block)).run d = .ok inverse d') :
    Changes (blocksEdit d (min bi d.blocks.length) 0 [block]) d d' := by
  obtain ⟨blocks, blocks', hget, hrun, rfl⟩ := blocksOf.borrow_eq_ok.mp h
  cases hget
  cases hrun
  refine changes_blocks ?_
  rw [insertIdx_eq_take_append (Nat.min_le_right _ _)]
  simp

lemma effect_removeBlock {bi : ℕ} (h : (applyCommand (.removeBlock bi)).run d = .ok inverse d') :
    Changes (blocksEdit d bi 1 []) d d' := by
  rw [applyCommand] at h
  obtain ⟨blocks, blocks', hget, hrun, rfl⟩ := blocksOf.borrow_eq_ok.mp h
  cases hget
  cases hb : d.blocks[bi]? with
  | none => simp [removeBlock, hb] at hrun
  | some block =>
    obtain ⟨-, rfl⟩ : _ ∧ d.blocks.eraseIdx bi = blocks' := by simpa [removeBlock, hb] using hrun
    refine changes_blocks ?_
    rw [List.eraseIdx_eq_take_drop_succ]
    simp

lemma effect_replaceBlock {bi : ℕ} {block : Block}
    (h : (applyCommand (.replaceBlock bi block)).run d = .ok inverse d') :
    Changes (blocksEdit d bi 1 [block]) d d' := by
  rw [applyCommand] at h
  obtain ⟨blocks, blocks', hget, hrun, rfl⟩ := blocksOf.borrow_eq_ok.mp h
  cases hget
  by_cases hgt : bi > d.blocks.length
  · simp [replaceBlock, hgt] at hrun
  · cases hb : d.blocks[bi]? with
    | none =>
      obtain ⟨-, rfl⟩ : _ ∧ d.blocks ++ [block] = blocks' := by
        simpa [replaceBlock, hb, hgt] using hrun
      have hlen := List.getElem?_eq_none_iff.mp hb
      refine changes_blocks ?_
      rw [List.take_of_length_le hlen, List.drop_of_length_le (hlen.trans (Nat.le_succ _)),
        List.append_nil]
    | some current =>
      obtain ⟨-, rfl⟩ : _ ∧ d.blocks.set bi block = blocks' := by
        simpa [replaceBlock, hb, hgt] using hrun
      exact changes_set (List.getElem?_eq_some_iff.mp hb).1 block

lemma effect_replaceParagraph {bi : ℕ} {p : Paragraph}
    (h : ((bodyParagraph bi).borrow .editOutOfBounds (replace p (.replaceParagraph bi))).run d =
      .ok inverse d') : Changes (blocksEdit d bi 1 [.paragraph p]) d d' := by
  obtain ⟨_, _, hget, hrun, rfl⟩ := (bodyParagraph bi).borrow_eq_ok.mp h
  cases hrun
  obtain ⟨block, hblock, -⟩ := Option.bind_eq_some_iff.mp hget
  have hlt : bi < d.blocks.length := (List.getElem?_eq_some_iff.mp hblock).1
  rw [show (bodyParagraph bi).set p d = _ from Focus.set_comp hblock p]
  exact changes_set hlt _

lemma effect_cell {bi row col : ℕ} {x : Edit TableCell EditCommand}
    (h : ((bodyCell bi row col).borrow .editOutOfBounds x).run d = .ok inverse d')
    (hx : Relates (fun cell cell' => cell'.paragraphs = cell.paragraphs) x)
    (he : textEdit d cmd = none) (hadded : added cmd = []) : Effect d cmd d' := by
  obtain ⟨cell, cell', hget, hrun, rfl⟩ := (bodyCell bi row col).borrow_eq_ok.mp h
  exact effect_of_keepsTexts (texts_set_bodyCell hget (hx hrun)) he hadded

/-- A command on a table. -/
lemma effect_table {bi : ℕ} {x : Edit Table EditCommand} {edit : Table → TextEdit}
    (h : ((bodyTable bi).borrow .editOutOfBounds x).run d = .ok inverse d')
    (hx : ∀ t t', (bodyTable bi).get? d = some t → x.run t = .ok inverse t' →
      Changes (edit t) d ((bodyTable bi).set t' d))
    (he : textEdit d cmd = (tableAt d.blocks bi).map edit) (hadded : added cmd = []) :
    Effect d cmd d' := by
  obtain ⟨t, t', hget, hrun, rfl⟩ := (bodyTable bi).borrow_eq_ok.mp h
  refine .text ?_ hadded (hx t t' hget hrun)
  rw [he, ← get?_bodyTable, hget]
  rfl

/-- Every successful command. -/
lemma effect_of_applies (h : Applies cmd d inverse d') : Effect d cmd d' := by
  cases cmd with
  | insertText pos text =>
    obtain ⟨e, he, hchange⟩ := changes_insertText h
    exact .text he rfl hchange
  | deleteRange range =>
    obtain ⟨e, he, hchange⟩ := changes_deleteRange h
    exact .text he rfl hchange
  | setRunStyle range style =>
    rw [Applies, applyCommand] at h
    obtain ⟨_, _, hread, happ⟩ := Run.bind_eq_ok.mp h
    cases hread
    obtain ⟨_, u, hstyle, hret⟩ := Run.bind_eq_ok.mp happ
    cases hret
    exact effect_of_keepsTexts (relates_applySetRunStyle range style hstyle) rfl rfl
  | setAlignment i alignment =>
    rw [Applies, applyCommand] at h
    exact effect_paragraph h (fun p _ p' hp => by cases hp; rfl) rfl rfl
  | toggleList i kind =>
    rw [Applies, applyCommand] at h
    exact effect_paragraph h (fun p _ p' hp => by cases hp; rfl) rfl rfl
  | insertTable i t =>
    rw [Applies, applyCommand] at h
    exact .text rfl rfl (effect_insertBlock h)
  | insertImage pos image =>
    rw [Applies, applyCommand] at h
    obtain ⟨blocks, rfl, hbefore, hafter⟩ := effect_insertBlock h
    refine effect_of_keepsTexts ⟨blocks, rfl, ?_⟩ rfl rfl
    rw [hafter, hbefore]
    simp [TextEdit.after, TextEdit.before, blocksEdit, Block.texts]
  | insertTableRow i r =>
    rw [Applies, applyCommand] at h
    refine effect_table h (fun t t' hget hrun => ?_) rfl rfl
    cases hrun
    refine changes_rows hget ?_
    rw [insertIdx_eq_take_append (Nat.min_le_right _ _)]
    simp
  | restoreTableRow i r row =>
    rw [Applies, applyCommand] at h
    refine effect_table h (fun t t' hget hrun => ?_) rfl rfl
    cases hrun
    refine changes_rows hget ?_
    rw [insertIdx_eq_take_append (Nat.min_le_right _ _)]
    simp
  | deleteTableRow i r =>
    rw [Applies, applyCommand] at h
    refine effect_table h (fun t t' hget hrun => ?_) rfl rfl
    obtain ⟨-, -, rfl⟩ := exists_deleteTableRow_iff.mp ⟨_, hrun⟩
    refine changes_rows hget ?_
    rw [List.eraseIdx_eq_take_drop_succ]
    simp
  | insertTableColumn i c =>
    rw [Applies, applyCommand] at h
    refine effect_table h (fun t t' hget hrun => ?_) rfl rfl
    by_cases ht : t.rows = []
    · simp [insertTableColumn, ht] at hrun
    · rw [insertTableColumn_run ht] at hrun
      cases hrun
      exact changes_table hget _
  | restoreTableColumn i c cells width =>
    rw [Applies, applyCommand] at h
    refine effect_table h (fun t t' hget hrun => ?_) rfl rfl
    by_cases hlen : cells.length = t.rows.length
    · obtain ⟨-, rfl⟩ : _ ∧ addColumn t c cells width = t' := by
        simpa [restoreTableColumn, hlen, addColumn] using hrun
      exact changes_table hget _
    · simp [restoreTableColumn, hlen] at hrun
  | deleteTableColumn i c =>
    rw [Applies, applyCommand] at h
    refine effect_table h (fun t t' hget hrun => ?_) rfl rfl
    obtain ⟨-, rfl⟩ := deleteTableColumn_eq_ok_iff.mp ⟨_, hrun⟩
    exact changes_table hget _
  | insertCellImage i row col idx image =>
    rw [Applies, applyCommand] at h
    exact effect_cell h (fun cell _ cell' hc => by cases hc; rfl) rfl rfl
  | removeCellImage i row col idx =>
    rw [Applies, applyCommand] at h
    refine effect_cell h (fun cell _ cell' hc => ?_) rfl rfl
    cases himg : cell.images[idx]? with
    | none => simp [removeCellImage, himg] at hc
    | some image =>
      simp only [removeCellImage, EStateM.run_bind, EStateM.run_get, himg] at hc
      cases hc
      rfl
  | replaceParagraph i p =>
    rw [Applies, applyCommand] at h
    exact .text rfl rfl (effect_replaceParagraph h)
  | replaceBlock i b => exact .text rfl rfl (effect_replaceBlock h)
  | removeBlock i => exact .text rfl rfl (effect_removeBlock h)
  | replaceBlocks blocks =>
    rw [Applies, applyCommand] at h
    obtain ⟨_, _, -, hrun, rfl⟩ := blocksOf.borrow_eq_ok.mp h
    cases hrun
    exact .text rfl rfl (changes_blocks (by simp))
  | setPageSetup setup | setHeader ps | setFooter ps | setHeaderFirst ps | setFooterFirst ps
    | setHeaderEven ps | setFooterEven ps =>
    rw [Applies, applyCommand] at h
    exact effect_replace h (fun _ => ⟨rfl, rfl⟩) rfl rfl
  | setSectionPageSetup i setup =>
    rw [Applies, applyCommand] at h
    refine effect_paragraph h (fun p _ p' hp => ?_) rfl rfl
    cases hsec : p.sectionProperties with
    | none => simp [setSectionPageSetup, hsec] at hp
    | some previous =>
      simp only [setSectionPageSetup, EStateM.run_bind, EStateM.run_get, EStateM.run_set, hsec] at hp
      cases hp
      rfl
  | addBookmark b =>
    rw [Applies, applyCommand] at h
    obtain ⟨l, l', hget, hrun, rfl⟩ := bookmarksOf.borrow_eq_ok.mp h
    cases hget
    obtain ⟨-, -, rfl⟩ := addBookmark_eq_ok_iff.mp hrun
    refine effect_of_anchors rfl (fun x hx => ?_) (fun r hr => .inl hr) rfl fun x hx => ?_
    · rcases List.mem_append.mp hx with hx | hx
      · exact .inl hx
      · exact .inr (by simp [added, List.mem_singleton.mp hx])
    · exact mem_anchors.mpr (.inl ⟨b, List.mem_append_right _ (List.mem_singleton.mpr rfl),
        (List.mem_singleton.mp hx).symm⟩)
  | removeBookmark name =>
    rw [Applies, applyCommand] at h
    obtain ⟨l, l', hget, hrun, rfl⟩ := bookmarksOf.borrow_eq_ok.mp h
    cases hget
    obtain ⟨b, l₁, hrem, hret⟩ := Run.bind_eq_ok.mp hrun
    cases hret
    obtain ⟨-, rfl⟩ := removeFirst_eq_ok_iff.mp hrem
    exact effect_of_anchors rfl (fun x hx => .inl (List.mem_of_mem_eraseP hx))
      (fun r hr => .inl hr) rfl (by simp [added])
  | addComment c r =>
    rw [Applies, applyCommand] at h
    obtain ⟨-, -, rfl⟩ := addComment_eq_ok_iff.mp h
    refine effect_of_anchors rfl (fun b hb => .inl hb) (fun x hx => ?_) rfl fun x hx => ?_
    · rcases List.mem_append.mp hx with hx | hx
      · exact .inl hx
      · exact .inr (by simp [added, List.mem_singleton.mp hx])
    · exact mem_anchors.mpr (.inr ⟨r, List.mem_append_right _ (List.mem_singleton.mpr rfl),
        (List.mem_singleton.mp hx).symm⟩)
  | removeComment id =>
    rw [Applies, applyCommand] at h
    obtain ⟨c, r, -, -, -, rfl⟩ := removeComment_eq_ok_iff.mp h
    exact effect_of_anchors rfl (fun b hb => .inl hb)
      (fun x hx => .inl (List.mem_of_mem_eraseP hx)) rfl (by simp [added])
  | updateCommentText id text =>
    rw [Applies, applyCommand] at h
    obtain ⟨l, l', -, -, rfl⟩ := commentsOf.borrow_eq_ok.mp h
    exact effect_of_frame rfl rfl rfl rfl

/-! ### One command -/

/-- After a successful command the anchors mean what they meant before exactly if the command is
safe for them. -/
theorem anchors_kept_iff (hin : AnchorsInText d) (h : Applies cmd d inverse d') :
    AnchorsInText d' ∧ ShiftsAnchors cmd d d' ↔ AnchorSafe d cmd := by
  cases effect_of_applies h with
  | @text e he hadded hchange =>
    obtain ⟨blocks, rfl, hbefore, hafter⟩ := hchange
    have hd : d.plainText = joined '\n' e.before := by
      rw [Document.plainText, bodyText_eq_joined, hbefore]
    have hd' : bodyText blocks = joined '\n' e.after := by rw [bodyText_eq_joined, hafter]
    have hroom : AnchorsInText { d with blocks } ↔ ∀ x ∈ anchors d,
        x.1 ≤ utf8Len (joined '\n' e.after) ∧ x.2 ≤ utf8Len (joined '\n' e.after) := by
      rw [← hd']
      exact Iff.rfl
    have hshift : ShiftsAnchors cmd d { d with blocks } ↔
        utf8Len (joined '\n' e.after) = utf8Len d.plainText ∨ ∀ x ∈ anchors d, x.1 ≤ e.stop := by
      constructor
      · intro hshift
        by_cases hfront : ∀ x ∈ anchors d, x.1 ≤ e.stop
        · exact .inr hfront
        · push Not at hfront
          obtain ⟨x, hx, hlt⟩ := hfront
          obtain ⟨k, hk⟩ := List.getElem?_of_mem hx
          obtain ⟨x', hk', hstart, -⟩ := hshift e he k x hk hlt
          -- the anchors are not touched
          obtain rfl : x = x' := Option.some.inj (hk.symm.trans hk')
          rw [← hd']
          exact .inl (Nat.add_left_cancel hstart).symm
      · intro hstays e' he' k x hk hlt
        obtain rfl := Option.some.inj (he.symm.trans he')
        have hlen := hstays.resolve_right fun h => (h x (List.mem_of_getElem? hk)).not_gt hlt
        have hplain : utf8Len (Document.plainText { d with blocks }) = utf8Len d.plainText := by
          rw [← hlen, ← hd']
          rfl
        refine ⟨x, hk, by rw [hplain], by rw [hplain], ?_⟩
        rw [show Document.plainText { d with blocks } = _ from hd', hd]
        exact e.sliceBytes_after (by rw [hlen, hd]) hlt.le
    rw [hroom, hshift]
    constructor
    · rintro ⟨hroom, hstays⟩
      refine ⟨by simp [hadded], fun e' he' => ?_, fun e' he' => ?_⟩
      all_goals
        obtain rfl := Option.some.inj (he.symm.trans he')
        assumption
    · rintro ⟨-, hroom, hstays⟩
      exact ⟨hroom e he, hstays e he⟩
  | anchor he htexts hsub hadded =>
    have htext : d'.plainText = d.plainText := by
      rw [Document.plainText, Document.plainText, bodyText_eq_joined, bodyText_eq_joined, htexts]
    have hshift : ShiftsAnchors cmd d d' := fun e h => by simp [he] at h
    constructor
    · rintro ⟨hin', -⟩
      refine ⟨fun x hx => htext ▸ hin' x (hadded x hx), ?_, ?_⟩
      all_goals simp [he]
    · intro hsafe
      refine ⟨fun x hx => ?_, hshift⟩
      rw [htext]
      rcases hsub x hx with hx | hx
      · exact hin x hx
      · exact hsafe.added_le x hx

end Effects

/-! ### Runs -/

/-- What is done with an undo stack. -/
inductive StackOp where
  | push (cmd : EditCommand)
  | undo
  | redo

namespace StackOp

def run : StackOp → Edit (UndoStack × Document) Unit
  | push cmd => UndoStack.push cmd
  | undo => UndoStack.undo
  | redo => UndoStack.redo

/-- The command that an operation applies to the document. -/
def command (st : UndoStack) : StackOp → Option EditCommand
  | push cmd => some cmd
  | undo => st.past.head?.map StackEntry.inverse
  | redo => st.future.head?

lemma applies_of_run {op : StackOp} {cmd : EditCommand} {s s' : UndoStack × Document}
    (hcmd : op.command s.1 = some cmd) (h : op.run.run s = .ok () s') :
    ∃ inverse, Applies cmd s.2 inverse s'.2 := by
  obtain ⟨st, d⟩ := s
  obtain ⟨st', d'⟩ := s'
  cases op with
  | push c =>
    obtain rfl := Option.some.inj hcmd
    obtain ⟨inverse, happ, -⟩ := UndoStack.push_eq_ok_iff.mp h
    exact ⟨inverse, happ⟩
  | undo =>
    cases hpast : st.past with
    | nil => simp [command, hpast] at hcmd
    | cons entry past =>
      obtain rfl : entry.inverse = cmd := by simpa [command, hpast] using hcmd
      exact UndoStack.leadsBack_of_undo hpast h
  | redo =>
    cases hfuture : st.future with
    | nil => simp [command, hfuture] at hcmd
    | cons c future =>
      obtain rfl : c = cmd := by simpa [command, hfuture] using hcmd
      exact UndoStack.applies_of_redo hfuture h

end StackOp

/-- Along a run the anchors stay in the text, and every command shifts those behind its change. -/
def KeepsAnchors : UndoStack × Document → List StackOp → Prop
  | s, [] => AnchorsInText s.2
  | s, op :: ops => AnchorsInText s.2 ∧ ∀ cmd s', op.command s.1 = some cmd →
      op.run.run s = .ok () s' → ShiftsAnchors cmd s.2 s'.2 ∧ KeepsAnchors s' ops

/-- Along a run every command is safe for the anchors where it is applied. -/
def EachAnchorSafe : UndoStack × Document → List StackOp → Prop
  | _, [] => True
  | s, op :: ops => ∀ cmd s', op.command s.1 = some cmd → op.run.run s = .ok () s' →
      AnchorSafe s.2 cmd ∧ EachAnchorSafe s' ops

lemma KeepsAnchors.anchorsInText {s : UndoStack × Document} {ops : List StackOp}
    (h : KeepsAnchors s ops) : AnchorsInText s.2 := by
  cases ops with
  | nil => exact h
  | cons op ops => exact h.1

/-- A run of edits, undos and redos keeps the anchors exactly if each of its commands is safe for
them. -/
theorem keepsAnchors_iff {s : UndoStack × Document} {ops : List StackOp}
    (hin : AnchorsInText s.2) : KeepsAnchors s ops ↔ EachAnchorSafe s ops := by
  induction ops generalizing s with
  | nil => exact iff_of_true hin trivial
  | cons op ops ih =>
    constructor
    · rintro ⟨-, hstep⟩ cmd s' hcmd hrun
      obtain ⟨hshift, hkeep⟩ := hstep cmd s' hcmd hrun
      obtain ⟨inverse, happ⟩ := StackOp.applies_of_run hcmd hrun
      have hin' := hkeep.anchorsInText
      exact ⟨(anchors_kept_iff hin happ).mp ⟨hin', hshift⟩, (ih hin').mp hkeep⟩
    · intro hsafe
      refine ⟨hin, fun cmd s' hcmd hrun => ?_⟩
      obtain ⟨hone, hrest⟩ := hsafe cmd s' hcmd hrun
      obtain ⟨inverse, happ⟩ := StackOp.applies_of_run hcmd hrun
      obtain ⟨hin', hshift⟩ := (anchors_kept_iff hin happ).mpr hone
      exact ⟨hshift, (ih hin').mpr hrest⟩

/-- Typing behind a bookmark. -/
theorem keepsAnchors_type :
    KeepsAnchors ({}, { blocks := [.paragraph { runs := [{ text := ['A'] }] }],
                        bookmarks := [⟨['m'], 0⟩] })
      [.push (.insertText ⟨0, none, 0, 1⟩ ['B'])] := by
  have hzero : ∀ x ∈ anchors { blocks := [.paragraph { runs := [{ text := ['A'] }] }],
                               bookmarks := [⟨['m'], 0⟩] }, x = (0, 0) := by
    simp [anchors]
  refine (keepsAnchors_iff ?_).mpr fun cmd s' hcmd _ => ⟨⟨?_, ?_, ?_⟩, trivial⟩
  · intro x hx
    simp [hzero x hx]
  · obtain rfl := Option.some.inj hcmd
    simp [added]
  · intro e _ x hx
    simp [hzero x hx]
  · exact fun e _ => .inr fun x hx => by simp [hzero x hx]

/-- A bookmark at the end of a text that gets shorter. -/
theorem not_keepsAnchors_delete :
    AnchorsInText { blocks := [.paragraph { runs := [{ text := ['A', 'B'] }] }],
                    bookmarks := [⟨['m'], 2⟩] } ∧
    ¬ KeepsAnchors ({}, { blocks := [.paragraph { runs := [{ text := ['A', 'B'] }] }],
                          bookmarks := [⟨['m'], 2⟩] })
      [.push (.deleteRange ⟨⟨0, none, 0, 0⟩, ⟨0, none, 0, 1⟩⟩)] := by
  constructor
  · unfold AnchorsInText
    decide
  · intro h
    have hin := (h.2 _ _ rfl rfl).2
    have hlen := (hin (2, 2) (by decide)).1
    exact absurd hlen (by decide)

end Orchid.Document
