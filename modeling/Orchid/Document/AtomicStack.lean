import Orchid.Document.AtomicStyle

/-!
# Failing commands and the undo stack

For every command, when a failure leaves the document alone, and from that the same of pushing,
undoing and redoing.
-/

namespace Orchid.Document

open Lib
open String (utf8Len)

/-! ### Commands -/

/-- The command goes through, or is refused before it has changed anything. -/
def Safe (d : Document) : EditCommand → Prop
  | .insertText pos _ => ∀ p, paragraphRef d.blocks pos = some p → ∀ r ∈ p.runs[pos.runIdx]?,
      pos.byteOffset ≤ utf8Len r.text → IsCharBoundary r.text pos.byteOffset
  | .deleteRange range =>
      range.normalized.1.sameParagraph range.normalized.2 → ∀ p,
        paragraphRef d.blocks range.normalized.1 = some p →
          RangeSafe p range.normalized.1 range.normalized.2
  | .setRunStyle range patch =>
      if range.normalized.1.sameParagraph range.normalized.2 then
        ∀ p, paragraphRef d.blocks range.normalized.1 = some p →
          StyleSafe p range.normalized.1 range.normalized.2
      else RefusedAtOnce d range.normalized.1 range.normalized.2 ∨
        SafeAcross d range.normalized.1 range.normalized.2 patch
  | .setSectionPageSetup i _ => ∀ p, d.blocks[i]? = some (.paragraph p) →
      p.sectionProperties ≠ none
  | .removeComment id => (∃ c ∈ d.comments, c.id = id) → ∃ r ∈ d.commentRanges, r.id = id
  | _ => True

variable {d : Document}

lemma atomic_insertText_iff {pos : Cursor} {text : Text} :
    Atomic (applyCommand (.insertText pos text)) d ↔ Safe d (.insertText pos text) := by
  rw [applyCommand, Safe]
  refine (Atomic.bind_ok_iff fun _ t => ⟨_, t, rfl⟩).trans ?_
  rw [applyInsertText, Atomic.borrow_iff, get?_paragraphMut]
  refine forall_congr' fun p => imp_congr_right fun _ => ?_
  rw [insertTextInParagraph]
  have hread {f : Paragraph → Edit Paragraph Unit} :
      Atomic (get >>= f) p ↔ Atomic (f p) p := Iff.rfl
  rw [hread]
  cases hruns : p.runs with
  | nil => exact iff_of_true (Atomic.of_ok rfl) (by simp)
  | cons first rest =>
    rw [← hruns]
    have hne : ¬ p.runs.isEmpty = true := by simp [hruns]
    rw [if_neg hne]
    cases hr : p.runs[pos.runIdx]? with
    | none => exact iff_of_true Atomic.throw (by simp)
    | some r =>
      have hiff : (∀ r' ∈ some r, pos.byteOffset ≤ utf8Len r'.text →
          IsCharBoundary r'.text pos.byteOffset) ↔
          (pos.byteOffset ≤ utf8Len r.text → IsCharBoundary r.text pos.byteOffset) := by simp
      rw [hiff]
      dsimp only
      by_cases hle : pos.byteOffset ≤ utf8Len r.text
      · rw [if_neg (Nat.not_lt.2 hle)]
        cases hins : insertAtByte r.text pos.byteOffset text with
        | none =>
          refine iff_of_false (fun h => (h .panic p rfl).2 rfl) fun h => ?_
          obtain ⟨u, v, htext, hbyte⟩ := h hle
          have hsome : insertAtByte r.text pos.byteOffset text = some (u ++ text ++ v) :=
            insertAtByte_eq_some_iff.2 ⟨u, v, htext, hbyte, rfl⟩
          rw [hins] at hsome
          cases hsome
        | some t =>
          obtain ⟨u, v, htext, hbyte, -⟩ := insertAtByte_eq_some_iff.1 hins
          exact iff_of_true (Atomic.of_ok rfl) fun _ => ⟨u, v, htext, hbyte⟩
      · rw [if_pos (Nat.not_le.1 hle)]
        exact iff_of_true Atomic.throw fun h => absurd h hle

lemma run_extractText_same {start stop : Cursor} {p : Paragraph} (hsame : start.sameParagraph stop)
    (hp : paragraphRef d.blocks start = some p) :
    (extractText start stop).run d = match extractFromParagraph start stop p with
      | .error e => .error e d
      | .ok t => .ok t d := by
  rw [extractText, EStateM.run_bind, EStateM.run_get]
  simp only [hsame, not_true, if_false, hp]
  cases extractFromParagraph start stop p <;> rfl

lemma atomic_deleteRange_iff {range : Selection} :
    Atomic (applyCommand (.deleteRange range)) d ↔ Safe d (.deleteRange range) := by
  rw [applyCommand, Safe]
  obtain ⟨start, stop⟩ := range.normalized
  dsimp only
  by_cases hsame : start.sameParagraph stop
  · cases hp : paragraphRef d.blocks start with
    | none =>
      refine iff_of_true ?_ (by simp)
      intro e t herr
      simp only [extractText, EStateM.run_bind, EStateM.run_get, hsame, not_true, if_false,
        hp] at herr
      exact Atomic.throw e t herr
    | some p =>
      have hsafe : (start.sameParagraph stop → ∀ q, some p = some q → RangeSafe q start stop) ↔
          DeletesOrRefuses p start stop := by
        rw [deletesOrRefuses_iff]
        simp [hsame]
      rw [hsafe, DeletesOrRefuses]
      have hextract := run_extractText_same hsame hp
      cases hread : extractFromParagraph start stop p with
      | error e =>
        rw [hread] at hextract
        constructor
        · intro h
          refine (h e d ?_).2
          rw [EStateM.run_bind, hextract]
        · intro hne e' t herr
          rw [EStateM.run_bind, hextract] at herr
          cases herr
          exact ⟨rfl, hne⟩
      | ok text =>
        rw [hread] at hextract
        have hrest : Atomic (do
              let text ← extractText start stop
              applyDeleteRange start stop
              return .insertText start text : Edit Document EditCommand) d ↔
            Atomic (do
              applyDeleteRange start stop
              return .insertText start text : Edit Document EditCommand) d := by
          rw [Atomic, Atomic, EStateM.run_bind, hextract]
        refine hrest.trans ((Atomic.bind_ok_iff fun _ t => ⟨_, t, rfl⟩).trans ?_)
        rw [applyDeleteRange, if_neg (not_not.2 hsame), Atomic.borrow_iff, get?_paragraphMut, hp]
        simp
  · refine iff_of_true ?_ fun h => absurd h hsame
    intro e t herr
    simp only [extractText, EStateM.run_bind, EStateM.run_get, hsame] at herr
    exact Atomic.throw e t herr

lemma atomic_setSectionPageSetup_iff {i : ℕ} {setup : PageSetup} :
    Atomic (applyCommand (.setSectionPageSetup i setup)) d ↔
      Safe d (.setSectionPageSetup i setup) := by
  rw [applyCommand, Atomic.borrow_iff, Safe]
  have hget (p : Paragraph) : (bodyParagraph i).get? d = some p ↔
      d.blocks[i]? = some (.paragraph p) := by
    rw [bodyParagraph, blockAt, Focus.comp]
    cases hblock : d.blocks[i]? with
    | none => simp [Focus.comp, blocksOf, Focus.field, Focus.index, hblock]
    | some block =>
      cases block <;> simp [Focus.comp, blocksOf, Focus.field, Focus.index, hblock, asParagraph,
        Focus.case]
  refine forall_congr' fun p => ?_
  rw [hget]
  refine imp_congr_right fun _ => ?_
  cases hsection : p.sectionProperties with
  | none =>
    refine iff_of_false (fun h => ?_) fun h => h rfl
    have hrun : (setSectionPageSetup i setup).run p =
        .error .editOutOfBounds { p with sectionProperties := some setup } := by
      rw [setSectionPageSetup]
      simp only [EStateM.run_bind, EStateM.run_get, EStateM.run_set, hsection]
      rfl
    have hchanged := congrArg Paragraph.sectionProperties (h _ _ hrun).1
    rw [hsection] at hchanged
    cases hchanged
  | some previous =>
    refine iff_of_true (fun e t herr => ?_) (Option.some_ne_none previous)
    rw [setSectionPageSetup] at herr
    simp only [EStateM.run_bind, EStateM.run_get, EStateM.run_set, hsection] at herr
    cases herr

lemma run_removeFirst {α : Type} (p : α → Bool) (l : List α) :
    (removeFirst p).run l = match l.find? p with
      | none => .error .editOutOfBounds l
      | some a => .ok a (l.eraseP p) := by
  rw [removeFirst, EStateM.run_bind, EStateM.run_get]
  dsimp only
  cases l.find? p <;> rfl

lemma run_borrow_removeFirst {α : Type} (p : α → Bool) {f : Focus Document (List α)} {l : List α}
    (hget : f.get? d = some l) :
    (f.borrow .editOutOfBounds (removeFirst p)).run d = match l.find? p with
      | none => .error .editOutOfBounds d
      | some a => .ok a (f.set (l.eraseP p) d) := by
  rw [Focus.run_borrow, hget]
  dsimp only
  rw [run_removeFirst]
  cases l.find? p with
  | none =>
    dsimp only
    rw [f.set_get hget]
  | some a => rfl

lemma atomic_removeComment_iff {id : U32} :
    Atomic (applyCommand (.removeComment id)) d ↔ Safe d (.removeComment id) := by
  rw [applyCommand, removeComment, Safe]
  have hcomments := @run_borrow_removeFirst d _ (fun c : DocComment => decide (c.id = id))
    commentsOf d.comments rfl
  cases hc : d.comments.find? (fun c => decide (c.id = id)) with
  | none =>
    rw [hc] at hcomments
    refine iff_of_true (fun e t herr => ?_) ?_
    · rw [EStateM.run_bind, hcomments] at herr
      exact Atomic.throw e t herr
    · rintro ⟨c, hmem, hid⟩
      exact absurd (decide_eq_true hid) (List.find?_eq_none.1 hc c hmem)
  | some c =>
    rw [hc] at hcomments
    have hid : c.id = id := by simpa using List.find?_some hc
    have hmem : ∃ c ∈ d.comments, c.id = id := ⟨c, List.mem_of_find?_eq_some hc, hid⟩
    have hranges := @run_borrow_removeFirst
      (commentsOf.set (d.comments.eraseP fun c => decide (c.id = id)) d) _
      (fun r : CommentRange => decide (r.id = id)) commentRangesOf d.commentRanges rfl
    rw [← removeComment]
    cases hr : d.commentRanges.find? (fun r => decide (r.id = id)) with
    | none =>
      rw [hr] at hranges
      have hrun : (removeComment id).run d = .error .editOutOfBounds
          (commentsOf.set (d.comments.eraseP fun c => decide (c.id = id)) d) := by
        rw [removeComment, EStateM.run_bind, hcomments]
        dsimp only
        rw [EStateM.run_bind, hranges]
      refine iff_of_false (fun h => ?_) fun h => ?_
      · have hchanged : d.comments.eraseP (fun c => decide (c.id = id)) = d.comments :=
          congrArg Document.comments (h _ _ hrun).1
        have hlen := congrArg List.length hchanged
        rw [List.length_eraseP_of_mem (List.mem_of_find?_eq_some hc) (decide_eq_true hid)] at hlen
        have hpos := List.length_pos_of_mem (List.mem_of_find?_eq_some hc)
        omega
      · obtain ⟨r, hmem', hid⟩ := h hmem
        exact absurd (decide_eq_true hid) (List.find?_eq_none.1 hr r hmem')
    | some r =>
      rw [hr] at hranges
      have hrun : (removeComment id).run d = .ok (.addComment c r) (commentRangesOf.set
          (d.commentRanges.eraseP fun r => decide (r.id = id))
            (commentsOf.set (d.comments.eraseP fun c => decide (c.id = id)) d)) := by
        rw [removeComment, EStateM.run_bind, hcomments]
        dsimp only
        rw [EStateM.run_bind, hranges]
        rfl
      have hid' : r.id = id := by simpa using List.find?_some hr
      exact iff_of_true (Atomic.of_ok hrun) fun _ => ⟨r, List.mem_of_find?_eq_some hr, hid'⟩

lemma atomic_setRunStyle_iff {range : Selection} {patch : RunStylePatch} :
    Atomic (applyCommand (.setRunStyle range patch)) d ↔ Safe d (.setRunStyle range patch) := by
  have hstyle : Atomic (applyCommand (.setRunStyle range patch)) d ↔
      Atomic (applySetRunStyle range patch) d := by
    rw [applyCommand]
    exact Atomic.bind_ok_iff fun _ t => ⟨_, t, rfl⟩
  rw [hstyle, Safe]
  by_cases hsame : range.normalized.1.sameParagraph range.normalized.2
  · rw [if_pos hsame, applySetRunStyle]
    dsimp only
    rw [if_pos hsame, Atomic.borrow_iff, get?_paragraphMut]
    exact forall_congr' fun p => imp_congr_right fun _ => atomic_onePara_iff
  · rw [if_neg hsame]
    exact @atomic_across_iff d range.normalized.1 range.normalized.2 patch range rfl hsame

/-- A command leaves the document alone when it fails exactly if it is safe. -/
lemma atomic_applyCommand_iff (d : Document) (cmd : EditCommand) :
    Atomic (applyCommand cmd) d ↔ Safe d cmd := by
  cases cmd with
  | insertText pos text => exact atomic_insertText_iff
  | deleteRange range => exact atomic_deleteRange_iff
  | setRunStyle range patch => exact atomic_setRunStyle_iff
  | setSectionPageSetup i setup => exact atomic_setSectionPageSetup_iff
  | removeComment id => exact atomic_removeComment_iff
  | setAlignment | toggleList | insertTable | insertTableRow | insertImage | insertCellImage
  | replaceParagraph | replaceBlocks | setPageSetup | setHeader | setFooter | setHeaderFirst
  | setFooterFirst | setHeaderEven | setFooterEven | restoreTableRow =>
    refine iff_of_true ?_ trivial
    rw [applyCommand]
    exact Atomic.borrow_iff.2 fun _ _ => .of_ok rfl
  | deleteTableRow i rowIdx =>
    exact iff_of_true (Atomic.borrow_iff.2 fun t _ => atomic_deleteTableRow i rowIdx t) trivial
  | insertTableColumn i atCol =>
    exact iff_of_true (Atomic.borrow_iff.2 fun t _ => atomic_insertTableColumn i atCol t) trivial
  | deleteTableColumn i colIdx =>
    exact iff_of_true (Atomic.borrow_iff.2 fun t _ => atomic_deleteTableColumn i colIdx t) trivial
  | restoreTableColumn i atCol cells widthTwips =>
    exact iff_of_true (Atomic.borrow_iff.2 fun t _ =>
      atomic_restoreTableColumn i atCol cells widthTwips t) trivial
  | removeCellImage i row col imageIdx =>
    exact iff_of_true (Atomic.borrow_iff.2 fun c _ => atomic_removeCellImage i row col imageIdx c)
      trivial
  | replaceBlock i previous =>
    refine iff_of_true ?_ trivial
    rw [applyCommand]
    exact Atomic.borrow_iff.2 fun b _ => atomic_replaceBlock i previous b
  | removeBlock i =>
    refine iff_of_true ?_ trivial
    rw [applyCommand]
    exact Atomic.borrow_iff.2 fun b _ => atomic_removeBlock i b
  | addBookmark bookmark =>
    refine iff_of_true ?_ trivial
    rw [applyCommand]
    exact Atomic.borrow_iff.2 fun _ _ => .read (.ite (fun _ => .throw) fun _ => .of_ok rfl)
  | removeBookmark name =>
    refine iff_of_true ?_ trivial
    rw [applyCommand]
    exact Atomic.borrow_iff.2 fun l _ =>
      (Atomic.bind_ok_iff fun b t => ⟨_, t, rfl⟩).2 (atomic_removeFirst _ l)
  | updateCommentText id text =>
    refine iff_of_true ?_ trivial
    rw [applyCommand]
    exact Atomic.borrow_iff.2 fun l _ => atomic_updateCommentText id text l
  | addComment comment range =>
    refine iff_of_true ?_ trivial
    rw [applyCommand, addComment]
    refine (Atomic.bind_ok_iff fun _ t => ⟨_, _, rfl⟩).2 ?_
    exact Atomic.borrow_iff.2 fun _ _ => .read (.ite (fun _ => .throw) fun _ => .of_ok rfl)

/-! ### The undo stack -/

/-- A call of the undo stack. -/
inductive StackCall where
  | push (cmd : EditCommand)
  | undo
  | redo

namespace StackCall

/-- The call on the stacks and the document. -/
def run : StackCall → Edit (UndoStack × Document) Unit
  | .push cmd => UndoStack.push cmd
  | .undo => UndoStack.undo
  | .redo => UndoStack.redo

/-- A pushed command is safe; there is nothing to undo or redo, or the command that does it applies
to the document. -/
def Safe (st : UndoStack) (d : Document) : StackCall → Prop
  | .push cmd => Document.Safe d cmd
  | .undo => ∀ entry ∈ st.past.head?, ∃ inverse d', Applies entry.inverse d inverse d'
  | .redo => ∀ cmd ∈ st.future.head?, ∃ inverse d', Applies cmd d inverse d'

end StackCall

lemma atomic_push_iff {st : UndoStack} {cmd : EditCommand} :
    Atomic (UndoStack.push cmd) (st, d) ↔ Atomic (applyCommand cmd) d := by
  refine (Atomic.bind_ok_iff fun _ _ => ⟨_, _, rfl⟩).trans ?_
  rw [Atomic.borrow_iff]
  have hget : UndoStack.documentOf.get? (st, d) = some d := rfl
  rw [hget]
  simp

lemma run_documentOf {st : UndoStack} {cmd : EditCommand} :
    (UndoStack.documentOf.borrow .editOutOfBounds (applyCommand cmd)).run (st, d) =
      match (applyCommand cmd).run d with
      | .ok i d' => .ok i (st, d')
      | .error e d' => .error e (st, d') := by
  have hget : UndoStack.documentOf.get? (st, d) = some d := rfl
  rw [Focus.run_borrow, hget]
  dsimp only
  cases (applyCommand cmd).run d <;> rfl

lemma atomic_undo_iff {st : UndoStack} :
    Atomic UndoStack.undo (st, d) ↔
      ∀ entry ∈ st.past.head?, ∃ inverse d', Applies entry.inverse d inverse d' := by
  cases hpast : st.past with
  | nil =>
    refine iff_of_true (fun e t herr => ?_) (by simp)
    rw [UndoStack.undo, EStateM.run_bind, EStateM.run_get] at herr
    simp only [hpast] at herr
    exact Atomic.throw e t herr
  | cons entry past =>
    have hhead : (∀ entry' ∈ (entry :: past).head?,
        ∃ inverse d', Applies entry'.inverse d inverse d') ↔
        ∃ inverse d', (applyCommand entry.inverse).run d = .ok inverse d' := by
      simp [Applies]
    rw [hhead]
    cases happ : (applyCommand entry.inverse).run d with
    | ok inverse d' =>
      refine iff_of_true (fun e t herr => ?_) ⟨inverse, d', rfl⟩
      rw [UndoStack.undo, EStateM.run_bind, EStateM.run_get] at herr
      simp only [hpast, EStateM.run_bind, EStateM.run_set, run_documentOf, happ] at herr
      cases herr
    | error e d' =>
      refine iff_of_false (fun h => ?_) (by simp)
      have hrun : UndoStack.undo.run (st, d) = .error e ({ st with past }, d') := by
        rw [UndoStack.undo, EStateM.run_bind, EStateM.run_get]
        simp only [hpast, EStateM.run_bind, EStateM.run_set, run_documentOf, happ]
      have hlost : past = st.past :=
        congrArg (fun s : UndoStack × Document => s.1.past) (h _ _ hrun).1
      rw [hpast] at hlost
      exact List.cons_ne_self entry past hlost.symm

lemma atomic_redo_iff {st : UndoStack} :
    Atomic UndoStack.redo (st, d) ↔
      ∀ cmd ∈ st.future.head?, ∃ inverse d', Applies cmd d inverse d' := by
  cases hfuture : st.future with
  | nil =>
    refine iff_of_true (fun e t herr => ?_) (by simp)
    rw [UndoStack.redo, EStateM.run_bind, EStateM.run_get] at herr
    simp only [hfuture] at herr
    exact Atomic.throw e t herr
  | cons cmd future =>
    have hhead : (∀ cmd' ∈ (cmd :: future).head?, ∃ inverse d', Applies cmd' d inverse d') ↔
        ∃ inverse d', (applyCommand cmd).run d = .ok inverse d' := by
      simp [Applies]
    rw [hhead]
    cases happ : (applyCommand cmd).run d with
    | ok inverse d' =>
      refine iff_of_true (fun e t herr => ?_) ⟨inverse, d', rfl⟩
      rw [UndoStack.redo, EStateM.run_bind, EStateM.run_get] at herr
      simp only [hfuture, EStateM.run_bind, EStateM.run_set, run_documentOf, happ] at herr
      cases herr
    | error e d' =>
      refine iff_of_false (fun h => ?_) (by simp)
      have hrun : UndoStack.redo.run (st, d) = .error e ({ st with future }, d') := by
        rw [UndoStack.redo, EStateM.run_bind, EStateM.run_get]
        simp only [hfuture, EStateM.run_bind, EStateM.run_set, run_documentOf, happ]
      have hlost : future = st.future :=
        congrArg (fun s : UndoStack × Document => s.1.future) (h _ _ hrun).1
      rw [hfuture] at hlost
      exact List.cons_ne_self cmd future hlost.symm

/-- A call that fails leaves the document and both histories alone, and does not panic, exactly if
it is safe. -/
theorem stackCall_atomic_iff (st : UndoStack) (d : Document) (call : StackCall) :
    Atomic call.run (st, d) ↔ call.Safe st d := by
  cases call with
  | push cmd => exact atomic_push_iff.trans (atomic_applyCommand_iff d cmd)
  | undo => exact atomic_undo_iff
  | redo => exact atomic_redo_iff

/-- Setting the page setup of a section at a paragraph that ends none fails, and the paragraph ends
a section from then on. -/
theorem not_stackCall_atomic :
    ¬ ∀ (st : UndoStack) (d : Document) (call : StackCall), Atomic call.run (st, d) := by
  intro h
  have hrun : (StackCall.push (.setSectionPageSetup 0 {})).run.run
      ({}, { blocks := [.paragraph {}] }) = .error .editOutOfBounds
        ({}, { blocks := [.paragraph { sectionProperties := some {} }] }) := rfl
  have hsame := (h _ _ _ _ _ hrun).1
  have hblocks : [Block.paragraph { sectionProperties := some {} }] = [.paragraph {}] :=
    congrArg (fun s : UndoStack × Document => s.2.blocks) hsame
  simp at hblocks

end Orchid.Document
