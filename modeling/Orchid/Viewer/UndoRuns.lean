import Orchid.Viewer.TextUndo

/-!
# Runs of edits with undoing and redoing

As long as only line feeds end the lines of the texts, every operation on the stacks leads from one
text to another at places of these texts. So undoing and redoing walk along the texts between the
edits, and an insertion that was merged is taken back together with the ones before.
-/

namespace Orchid.Viewer

open Lib

open String (utf8Len)

variable {t t' u v d i s w : Text} {e e' : Editor} {op : TextOp} {now : ℕ}

/-! ### Frames -/

/-- An edit as undoing sees it: the text on its other side, where undoing and redoing leave the
cursor, and for insertions when the last one was. -/
structure Frame where
  text : Text
  back : ℕ × ℕ
  forth : ℕ × ℕ
  typed : Option ℕ

/-- An insertion goes on in this frame: it begins where the last one ended, and soon enough. -/
def Frame.takes (b : Frame) (start : ℕ × ℕ) (now window : ℕ) : Bool :=
  b.forth == start && b.typed.any fun last => decide (now - last ≤ window)

/-- What undoing is for: the texts that undoing leads back to, one a frame, and the texts that
redoing leads on to. -/
structure Frames where
  editing : Bool
  before : List Frame
  now : Text
  cursor : ℕ × ℕ
  after : List Frame
  mergeWindow : ℕ

namespace Frames

/-- A text was put between two others. -/
def inserted (f : Frames) (u s w : Text) (now : ℕ) : Frames :=
  let frame := ⟨f.now, place u, place (u ++ s), some now⟩
  { f with
    before := match f.before with
      | b :: before =>
        if b.takes (place u) now f.mergeWindow then
          { b with forth := place (u ++ s), typed := some now } :: before
        else frame :: b :: before
      | [] => [frame]
    now := u ++ (s ++ w), cursor := place (u ++ s), after := [] }

/-- A text was taken out from between two others. -/
def deleted (f : Frames) (u d w : Text) : Frames :=
  { f with
    before := ⟨f.now, place (u ++ d), place u, none⟩ :: f.before
    now := u ++ w, cursor := place u, after := [] }

/-- The frames are given up. -/
def forget (f : Frames) (t : Text) (cursor : ℕ × ℕ) : Frames :=
  { f with before := [], now := t, cursor := cursor, after := [] }

/-- A new content is written where it differs from the old one. -/
def replaced (f : Frames) (u d i w : Text) (now : ℕ) : Frames :=
  if i = [] then f.deleted u d w
  else if d = [] then f.inserted u i w now
  else f.forget (u ++ (i ++ w)) (place (u ++ i))

/-- Back to the text of the last frame. -/
def undone (f : Frames) : Frames :=
  match f.before with
  | [] => f
  | b :: before => { f with
      before := before, now := b.text, cursor := b.back
      after := { b with text := f.now } :: f.after }

/-- On to the next text. -/
def redone (f : Frames) : Frames :=
  match f.after with
  | [] => f
  | a :: after => { f with
      before := { a with text := f.now } :: f.before
      now := a.text, cursor := a.forth, after := after }

/-- What a call does, and when it succeeds. In edit mode insertions do where the cursor is at a
place of the text, deletions between two places of it in order, and all else always. -/
def Follows (f : Frames) : Editor.Call → Bool → Frames → Prop
  | .setMode editing, ok, f' => ok = true ∧ f' = { f with editing := editing }
  | .moveCursor place, ok, f' => ok = true ∧ f' = { f with cursor := place }
  | .insert text now, true, f' => f.editing = true ∧ ∃ u w, f.now = u ++ w ∧
      f.cursor = place u ∧ f' = f.inserted u text w now
  | .insert _ _, false, f' => f' = f ∧
      (f.editing = true → ∀ u w, f.now = u ++ w → f.cursor ≠ place u)
  | .delete start stop _, true, f' => f.editing = true ∧ ∃ u d w, f.now = u ++ (d ++ w) ∧
      start = place u ∧ stop = place (u ++ d) ∧ f' = f.deleted u d w
  | .delete start stop _, false, f' => f' = f ∧ (f.editing = true →
      ∀ u d w, f.now = u ++ (d ++ w) → ¬ (start = place u ∧ stop = place (u ++ d)))
  | .replaceContent text now, ok, f' => ok = f.editing ∧
      if f.editing = false ∨ f.now = TextViewer.normalizeLines text then f' = f
      else ∃ u d i w, TextViewer.singleSpanDiff f.now (TextViewer.normalizeLines text) =
        (u, d, i) ∧ f.now = u ++ (d ++ w) ∧ TextViewer.normalizeLines text = u ++ (i ++ w) ∧
          f' = f.replaced u d i w now
  | .undo, ok, f' => ok = f.editing ∧ f' = if f.editing then f.undone else f
  | .redo, ok, f' => ok = f.editing ∧ f' = if f.editing then f.redone else f

/-- One call after another. -/
inductive Run : Frames → List (Editor.Call × Bool) → Frames → Prop
  | nil {f : Frames} : Run f [] f
  | cons {f g f' : Frames} {c : Editor.Call} {ok : Bool} {log : List (Editor.Call × Bool)}
    (hc : f.Follows c ok g) (h : Run g log f') : Run f ((c, ok) :: log) f'

/-- The frames of a file that is opened. -/
def ofBuffer (t : Text) (mergeWindow : ℕ) : Frames where
  editing := false
  before := []
  now := t
  cursor := (0, 0)
  after := []
  mergeWindow := mergeWindow

end Frames

/-- The frame of an operation, with the text on its other side. -/
def TextOp.frame (op : TextOp) (text : Text) : Frame :=
  match op.kind with
  | .insert => ⟨text, op.start, op.stop, some op.timestamp⟩
  | .delete => ⟨text, op.stop, op.start, none⟩

@[simp] lemma TextOp.frame_text (op : TextOp) (t : Text) : (op.frame t).text = t := by
  rw [TextOp.frame]
  split <;> rfl

@[simp] lemma TextOp.frame_with (op : TextOp) (t t' : Text) :
    { op.frame t with text := t' } = op.frame t' := by
  rw [TextOp.frame, TextOp.frame]
  split <;> rfl

/-! ### Operations that lead from one text to another -/

/-- An operation leads from a text to another, at the lines and columns of its places. -/
inductive Leads (op : TextOp) (t t' : Text) : Prop
  | insert (u w : Text) (hkind : op.kind = .insert) (htext : Plain op.text)
    (hstart : op.start = place u) (hstop : op.stop = place (u ++ op.text)) (ht : t = u ++ w)
    (ht' : t' = u ++ (op.text ++ w))
  | delete (u w : Text) (hkind : op.kind = .delete) (htext : Plain op.text)
    (hstart : op.start = place u) (hstop : op.stop = place (u ++ op.text))
    (ht : t = u ++ (op.text ++ w)) (ht' : t' = u ++ w)

namespace Editor

/-- An operation is taken back where it led to. -/
lemma revert_of_leads (h : Leads op t t') (ht : Plain t) (ht' : Plain t') (hedit : e.editing = true)
    (hbuffer : e.buffer = some t') :
    e.revert op = .ok { e with buffer := some t, cursor := (op.frame t).back } := by
  rw [revert, opened_eq hedit hbuffer, TextOp.frame]
  cases h with
  | insert u w hkind htext hstart hstop ht₁ ht₂ =>
    subst ht₁ ht₂
    have hplain : Plain (u ++ op.text) := ht.left.append htext
    obtain ⟨edit, hdelete⟩ := deleteEdit_place hplain w
    simp only [hkind, hstart, hstop, hdelete, TextBuffer.delete_place hplain, bind, Except.bind]
    rfl
  | delete u w hkind htext hstart hstop ht₁ ht₂ =>
    subst ht₁ ht₂
    obtain ⟨edit, hinsert⟩ := insertEdit_place ht'.left w op.text
    simp only [hkind, hstart, hinsert, TextBuffer.insert_place ht'.left, bind, Except.bind]
    rfl

/-- An operation is carried out once more where it led from. -/
lemma repeatOp_of_leads (h : Leads op t t') (ht : Plain t) (ht' : Plain t')
    (hedit : e.editing = true) (hbuffer : e.buffer = some t) :
    e.repeatOp op = .ok { e with buffer := some t', cursor := (op.frame t').forth } := by
  rw [repeatOp, opened_eq hedit hbuffer, TextOp.frame]
  cases h with
  | insert u w hkind htext hstart hstop ht₁ ht₂ =>
    subst ht₁ ht₂
    obtain ⟨edit, hinsert⟩ := insertEdit_place ht.left w op.text
    simp only [hkind, hstart, hinsert, TextBuffer.insert_place ht.left, bind, Except.bind]
    rfl
  | delete u w hkind htext hstart hstop ht₁ ht₂ =>
    subst ht₁ ht₂
    have hplain : Plain (u ++ op.text) := ht'.left.append htext
    obtain ⟨edit, hdelete⟩ := deleteEdit_place hplain w
    simp only [hkind, hstart, hstop, hdelete, TextBuffer.delete_place hplain, bind, Except.bind]
    rfl

end Editor

/-! ### The texts behind the stacks -/

/-- The operations of the past with the frames of the texts they led from, up to the text of now. -/
inductive Recorded : List TextOp → List Frame → Text → Prop
  | nil {t : Text} : Recorded [] [] t
  | cons {op : TextOp} {ops : List TextOp} {before : List Frame} {b t : Text}
    (hop : Leads op b t) (hb : Plain b) (h : Recorded ops before b) :
    Recorded (op :: ops) (op.frame b :: before) t

/-- The operations that were undone with the frames of the texts they lead to from the text of
now. -/
inductive Undone : List TextOp → List Frame → Text → Prop
  | nil {t : Text} : Undone [] [] t
  | cons {op : TextOp} {ops : List TextOp} {after : List Frame} {a t : Text}
    (hop : Leads op t a) (ha : Plain a) (h : Undone ops after a) :
    Undone (op :: ops) (op.frame a :: after) t

variable {stack : UndoStack} {ops : List TextOp} {before after : List Frame}

lemma Recorded.eq_nil (h : Recorded [] before t) : before = [] := by
  cases h
  rfl

lemma Recorded.exists_cons (h : Recorded (op :: ops) before t) : ∃ b rest,
    before = op.frame b :: rest ∧ Leads op b t ∧ Plain b ∧ Recorded ops rest b := by
  cases h with
  | cons hop hb h => exact ⟨_, _, rfl, hop, hb, h⟩

lemma Undone.eq_nil (h : Undone [] after t) : after = [] := by
  cases h
  rfl

lemma Undone.exists_cons (h : Undone (op :: ops) after t) : ∃ a rest,
    after = op.frame a :: rest ∧ Leads op t a ∧ Plain a ∧ Undone ops rest a := by
  cases h with
  | cons hop ha h => exact ⟨_, _, rfl, hop, ha, h⟩

lemma Recorded.length (h : Recorded ops before t) : ops.length = before.length := by
  induction h with
  | nil => rfl
  | cons _ _ _ ih => simp [ih]

lemma Undone.length (h : Undone ops after t) : ops.length = after.length := by
  induction h with
  | nil => rfl
  | cons _ _ _ ih => simp [ih]

@[simp] lemma push_future (stack : UndoStack) (op : TextOp) : (stack.push op).future = [] := by
  rw [UndoStack.push]
  split
  · rfl
  · split <;> rfl

@[simp] lemma push_mergeWindow (stack : UndoStack) (op : TextOp) :
    (stack.push op).mergeWindow = stack.mergeWindow := by
  rw [UndoStack.push]
  split
  · rfl
  · split <;> rfl

/-- What is merged follows in an insertion right behind the text inserted before. -/
lemma Leads.merge {prev : TextOp} {b : Text} (hprev : Leads prev b t) (hop : Leads op t t')
    (hb : Plain b) (ht : Plain t) (hkind : prev.kind = .insert) (hkind' : op.kind = .insert)
    (hend : prev.stop = op.start) (timestamp : ℕ) : Leads { prev with
      text := prev.text ++ op.text, stop := op.stop, timestamp := timestamp } b t' := by
  cases hprev with
  | delete => simp_all
  | insert u w _ htext hstart hstop ht₁ ht₂ =>
    cases hop with
    | delete => simp_all
    | insert u' w' _ htext' hstart' hstop' ht₁' ht₂' =>
      subst ht₁ ht₂ ht₂'
      rw [hstop, hstart'] at hend
      have hsplit : (u ++ prev.text) ++ w = u' ++ w' := by rw [List.append_assoc, ht₁']
      obtain rfl := place_inj (hb.left.append htext) (ht₁' ▸ ht : Plain (u' ++ w')).left hsplit hend
      obtain rfl := List.append_cancel_left hsplit
      exact .insert u w hkind (htext.append htext') hstart
        (by rw [hstop', List.append_assoc]) rfl (by simp)

/-- An insertion is merged just if it goes on in the last frame. -/
lemma takes_frame (prev op : TextOp) (b : Text) (hkind : op.kind = .insert) (window : ℕ) :
    (prev.frame b).takes op.start op.timestamp window = UndoStack.canMerge prev op window := by
  rw [UndoStack.canMerge, Frame.takes, TextOp.frame]
  cases hprev : prev.kind with
  | delete => simp [hkind]
  | insert =>
    by_cases hlate : window < op.timestamp - prev.timestamp
    · simp only [hkind, hlate, Option.any_some, decide_eq_false hlate.not_ge, Bool.and_false]
      simp
    · simp only [hkind, hlate, Option.any_some, decide_eq_true (not_lt.mp hlate), Bool.and_true]
      simp

lemma of_canMerge {prev : TextOp} {window : ℕ} (h : UndoStack.canMerge prev op window = true) :
    prev.kind = .insert ∧ prev.stop = op.start := by
  rw [UndoStack.canMerge] at h
  split_ifs at h with hkinds
  push Not at hkinds
  exact ⟨hkinds.2, beq_iff_eq.mp h⟩

/-- A deletion that is pushed opens a frame. -/
lemma Recorded.push_delete (h : Recorded stack.past before t) (hop : Leads op t t')
    (ht : Plain t) (hkind : op.kind = .delete) :
    Recorded (stack.push op).past (op.frame t :: before) t' := by
  rw [UndoStack.push]
  cases hpast : stack.past with
  | nil =>
    rw [hpast] at h
    exact .cons hop ht h
  | cons prev past =>
    rw [hpast] at h
    have hmerge : UndoStack.canMerge prev op stack.mergeWindow = false := by
      rw [UndoStack.canMerge, if_pos]
      by_cases hprev : prev.kind = .insert
      · left
        simp [hprev, hkind]
      · exact .inr hprev
    simp only [hmerge, Bool.false_eq_true, if_false]
    exact .cons hop ht h

/-- The viewer stands where the frames do. -/
structure Editor.At (e : Editor) (f : Frames) : Prop where
  editing : e.editing = f.editing
  buffer : e.buffer = some f.now
  cursor : e.cursor = f.cursor
  plain : Plain f.now
  past : Recorded e.undoStack.past f.before f.now
  future : Undone e.undoStack.future f.after f.now
  window : e.undoStack.mergeWindow = f.mergeWindow

/-- Only line feeds end the lines of what a call brings. -/
def Editor.Call.PlainText : Editor.Call → Prop
  | .insert text _ => Plain text
  | .replaceContent text _ => Plain (TextViewer.normalizeLines text)
  | _ => True

instance : DecidablePred Editor.Call.PlainText
  | .insert text _ => inferInstanceAs (Decidable (Plain text))
  | .replaceContent text _ => inferInstanceAs (Decidable (Plain (TextViewer.normalizeLines text)))
  | .setMode _ | .moveCursor _ | .delete .. | .undo | .redo => .isTrue trivial

namespace Editor

variable {f : Frames}

lemma At.opened (h : e.At f) (hedit : f.editing = true) : e.opened = .ok f.now :=
  opened_eq (h.editing.trans hedit) h.buffer

lemma At.opened_error (h : e.At f) (hedit : f.editing = false) :
    e.opened = .error .editOutOfBounds := by
  simp [Editor.opened, h.editing, hedit]

/-- An insertion that was carried out opens a frame or goes on in the last one. -/
lemma At.inserted (h : e.At f) (hnow : f.now = u ++ w) (hs : Plain s) (now : ℕ) : ({ e with
    buffer := some (u ++ (s ++ w)), cursor := place (u ++ s)
    undoStack := e.undoStack.push ⟨.insert, place u, place (u ++ s), s, now⟩ }).At
      (f.inserted u s w now) := by
  have hplain := h.plain
  have hpast := h.past
  rw [hnow] at hplain
  have hop : Leads ⟨.insert, place u, place (u ++ s), s, now⟩ f.now (u ++ (s ++ w)) :=
    .insert u w rfl hs rfl rfl hnow rfl
  refine ⟨h.editing, rfl, rfl, hplain.left.append (hs.append hplain.right), ?_, ?_, ?_⟩
  · simp only [UndoStack.push, Frames.inserted]
    cases hops : e.undoStack.past with
    | nil =>
      rw [hops] at hpast
      have hbefore := hpast.eq_nil
      rw [hbefore] at hpast
      simp only [hbefore]
      exact .cons hop h.plain hpast
    | cons prev past =>
      rw [hops] at hpast
      obtain ⟨b, rest, hbefore, hprev, hb, hrest⟩ := hpast.exists_cons
      have htakes := takes_frame prev ⟨.insert, place u, place (u ++ s), s, now⟩ b rfl
        f.mergeWindow
      rw [hbefore, h.window]
      simp only at htakes ⊢
      rw [htakes]
      split_ifs with hmerge
      · obtain ⟨hkind, hend⟩ := of_canMerge hmerge
        have hmerged := Recorded.cons (hprev.merge hop hb h.plain hkind rfl hend now) hb hrest
        simpa only [TextOp.frame, hkind] using hmerged
      · exact .cons hop h.plain (hbefore ▸ hpast)
  · simp only [push_future]
    exact .nil
  · simp only [push_mergeWindow]
    exact h.window

/-- A deletion that was carried out opens a frame. -/
lemma At.deleted (h : e.At f) (hnow : f.now = u ++ (d ++ w)) (now : ℕ) : ({ e with
    buffer := some (u ++ w), cursor := place u
    undoStack := e.undoStack.push ⟨.delete, place u, place (u ++ d), d, now⟩ }).At
      (f.deleted u d w) := by
  have hplain := h.plain
  rw [hnow] at hplain
  have hop : Leads ⟨.delete, place u, place (u ++ d), d, now⟩ f.now (u ++ w) :=
    .delete u w rfl hplain.right.left rfl rfl hnow rfl
  refine ⟨h.editing, rfl, rfl, hplain.left.append hplain.right.right,
    h.past.push_delete hop h.plain rfl, ?_, ?_⟩
  · simp only [push_future]
    exact .nil
  · simp only [push_mergeWindow]
    exact h.window

lemma At.forget (h : e.At f) (ht : Plain t) (cursor : ℕ × ℕ) : ({ e with
    buffer := some t, cursor := cursor, undoStack := e.undoStack.clear }).At
      (f.forget t cursor) :=
  ⟨h.editing, rfl, rfl, ht, .nil, .nil, h.window⟩

lemma At.insert (h : e.At f) (hs : Plain s) : ∃ f', f.Follows (.insert s now)
    (e.insert s now).1.isOk f' ∧ (e.insert s now).2.At f' := by
  rw [Editor.insert]
  cases hedit : f.editing with
  | false =>
    rw [h.opened_error hedit]
    exact ⟨f, ⟨rfl, fun hedit' => absurd (hedit.symm.trans hedit') Bool.false_ne_true⟩, h⟩
  | true =>
    rw [h.opened hedit]
    change ∃ f', f.Follows _ (e.settle (e.insertAt f.now e.cursor s now)).1.isOk f' ∧
      (e.settle (e.insertAt f.now e.cursor s now)).2.At f'
    by_cases hplace : ∃ u w, f.now = u ++ w ∧ f.cursor = place u
    · obtain ⟨u, w, hnow, hcursor⟩ := hplace
      have hplain : Plain (u ++ w) := hnow ▸ h.plain
      rw [h.cursor, hcursor, hnow, e.insertAt_place hplain.left hs]
      exact ⟨_, ⟨hedit, u, w, hnow, hcursor, rfl⟩, h.inserted hnow hs now⟩
    · cases hr : e.insertAt f.now e.cursor s now with
      | error err => exact ⟨f, ⟨rfl, fun _ u w hnow hcursor => hplace ⟨u, w, hnow, hcursor⟩⟩, h⟩
      | ok e' =>
        rw [h.cursor] at hr
        exact absurd (exists_insertAt h.plain hr) hplace

lemma At.delete (h : e.At f) (start stop : ℕ × ℕ) : ∃ f', f.Follows (.delete start stop now)
    (e.delete start stop now).1.isOk f' ∧ (e.delete start stop now).2.At f' := by
  rw [Editor.delete]
  cases hedit : f.editing with
  | false =>
    rw [h.opened_error hedit]
    exact ⟨f, ⟨rfl, fun hedit' => absurd (hedit.symm.trans hedit') Bool.false_ne_true⟩, h⟩
  | true =>
    rw [h.opened hedit]
    change ∃ f', f.Follows _ (e.settle (e.deleteRange f.now start stop now)).1.isOk f' ∧
      (e.settle (e.deleteRange f.now start stop now)).2.At f'
    by_cases hplace : ∃ u d w, f.now = u ++ (d ++ w) ∧ start = place u ∧ stop = place (u ++ d)
    · obtain ⟨u, d, w, hnow, rfl, rfl⟩ := hplace
      have hplain : Plain (u ++ (d ++ w)) := hnow ▸ h.plain
      rw [hnow, e.deleteRange_place (hplain.left.append hplain.right.left)]
      exact ⟨_, ⟨hedit, u, d, w, hnow, rfl, rfl, rfl⟩, h.deleted hnow now⟩
    · cases hr : e.deleteRange f.now start stop now with
      | error err =>
        exact ⟨f, ⟨rfl, fun _ u d w hnow hrange => hplace ⟨u, d, w, hnow, hrange⟩⟩, h⟩
      | ok e' => exact absurd (exists_deleteRange h.plain hr) hplace

lemma At.undo (h : e.At f) : ∃ f', f.Follows .undo e.undo.1.isOk f' ∧ e.undo.2.At f' := by
  refine ⟨if f.editing then f.undone else f, ?_⟩
  cases hedit : f.editing with
  | false =>
    rw [Editor.undo, if_pos (by simp [h.editing, hedit])]
    exact ⟨⟨hedit.symm, by rw [hedit]⟩, h⟩
  | true =>
    have hpast := h.past
    rw [Editor.undo, if_neg (by simp [h.editing, hedit])]
    simp only [UndoStack.undo, if_true]
    cases hops : e.undoStack.past with
    | nil =>
      rw [hops] at hpast
      have hundone : f.undone = f := by rw [Frames.undone, hpast.eq_nil]
      rw [hundone]
      exact ⟨⟨hedit.symm, by rw [if_pos hedit, hundone]⟩, h⟩
    | cons op ops =>
      rw [hops] at hpast
      obtain ⟨b, rest, hbefore, hop, hb, hrest⟩ := hpast.exists_cons
      have hrevert := revert_of_leads hop hb h.plain
        (e := { e with undoStack :=
          { e.undoStack with past := ops, future := op :: e.undoStack.future } })
        (h.editing.trans hedit) h.buffer
      have hundone : f.undone = { f with
          before := rest, now := b, cursor := (op.frame b).back
          after := op.frame f.now :: f.after } := by
        rw [Frames.undone, hbefore]
        simp
      simp only [hrevert, settle, hundone]
      exact ⟨⟨hedit.symm, by rw [if_pos hedit, hundone]⟩,
        h.editing, rfl, rfl, hb, hrest, .cons hop h.plain h.future, h.window⟩

lemma At.redo (h : e.At f) : ∃ f', f.Follows .redo e.redo.1.isOk f' ∧ e.redo.2.At f' := by
  refine ⟨if f.editing then f.redone else f, ?_⟩
  cases hedit : f.editing with
  | false =>
    rw [Editor.redo, if_pos (by simp [h.editing, hedit])]
    exact ⟨⟨hedit.symm, by rw [hedit]⟩, h⟩
  | true =>
    have hfuture := h.future
    rw [Editor.redo, if_neg (by simp [h.editing, hedit])]
    simp only [UndoStack.redo, if_true]
    cases hops : e.undoStack.future with
    | nil =>
      rw [hops] at hfuture
      have hredone : f.redone = f := by rw [Frames.redone, hfuture.eq_nil]
      rw [hredone]
      exact ⟨⟨hedit.symm, by rw [if_pos hedit, hredone]⟩, h⟩
    | cons op ops =>
      rw [hops] at hfuture
      obtain ⟨a, rest, hafter, hop, ha, hrest⟩ := hfuture.exists_cons
      have hrepeat := repeatOp_of_leads hop h.plain ha
        (e := { e with undoStack :=
          { e.undoStack with past := op :: e.undoStack.past, future := ops } })
        (h.editing.trans hedit) h.buffer
      have hredone : f.redone = { f with
          before := op.frame f.now :: f.before, now := a, cursor := (op.frame a).forth
          after := rest } := by
        rw [Frames.redone, hafter]
        simp
      simp only [hrepeat, settle, hredone]
      exact ⟨⟨hedit.symm, by rw [if_pos hedit, hredone]⟩,
        h.editing, rfl, rfl, ha, .cons hop h.plain h.past, hrest, h.window⟩

/-- What is neither a deletion nor an insertion alone gives the frames up. -/
lemma replaceSpan_place (e : Editor) (hd : Plain (u ++ d)) (hi : Plain i) (hne : i ≠ []) :
    e.replaceSpan (u ++ (d ++ w)) (place u) (place (u ++ d)) d.isEmpty i = .ok { e with
      buffer := some (u ++ (i ++ w)), cursor := place (u ++ i)
      undoStack := e.undoStack.clear } := by
  have hspan := e.replaceSpan_self u d w i
  have hland : landing u d w = u.length := if_neg (not_joined hd.left)
  rw [lineColAtChar_append_plain hd.left, ← List.append_assoc u d w,
    lineColAtChar_append_plain hd, List.append_assoc, cursorAfterInsert_place hd.left hi,
    if_neg hne, hland] at hspan
  simpa using hspan

lemma At.replaceContent (h : e.At f) {text : Text} (hs : Plain (TextViewer.normalizeLines text)) :
    ∃ result, e.replaceContent text now = some result ∧
      ∃ f', f.Follows (.replaceContent text now) result.1.isOk f' ∧ result.2.At f' := by
  cases hedit : f.editing with
  | false =>
    rw [Editor.replaceContent, h.opened_error hedit]
    exact ⟨_, rfl, f, ⟨hedit.symm, by rw [if_pos (.inl hedit)]⟩, h⟩
  | true =>
    by_cases hsame : f.now = TextViewer.normalizeLines text
    · rw [Editor.replaceContent, h.opened hedit]
      simp only [if_pos hsame]
      exact ⟨_, rfl, f, ⟨hedit.symm, by rw [if_pos (.inr hsame)]⟩, h⟩
    · obtain ⟨w, hb, hn⟩ := singleSpanDiff_spec f.now (TextViewer.normalizeLines text)
      obtain ⟨u, d, i, hdiff⟩ : ∃ u d i,
          TextViewer.singleSpanDiff f.now (TextViewer.normalizeLines text) = (u, d, i) :=
        ⟨_, _, _, rfl⟩
      rw [hdiff] at hb hn
      have hfollows : f.Follows (.replaceContent text now) true (f.replaced u d i w now) := by
        refine ⟨hedit.symm, ?_⟩
        rw [if_neg (by simp [hedit, hsame])]
        exact ⟨u, d, i, w, hdiff, hb, hn, rfl⟩
      have hplain : Plain (u ++ (d ++ w)) := hb ▸ h.plain
      have hd : Plain (u ++ d) := hplain.left.append hplain.right.left
      have hi : Plain i := (hn ▸ hs : Plain (u ++ (i ++ w))).right.left
      have hstart : lineColAtChar f.now u.length = place u := by
        rw [hb, lineColAtChar_append_plain hplain.left]
      have hstop : lineColAtChar f.now (u ++ d).length = place (u ++ d) := by
        rw [hb, ← List.append_assoc, lineColAtChar_append_plain hd]
      rw [replaceContent_eq (h.editing.trans hedit) h.buffer hsame hb hn hdiff, hstart, hstop]
      refine ⟨_, rfl, ?_⟩
      by_cases hempty : i = []
      · subst hempty
        have hne : d ≠ [] := by
          rintro rfl
          exact hsame (hb.trans hn.symm)
        have hr : e.deleteRange f.now (place u) (place (u ++ d)) now = _ :=
          hb ▸ e.deleteRange_place hd w now
        rw [if_pos (by simp [hne]), hr]
        exact ⟨_, hfollows, by simpa [Frames.replaced, settle] using h.deleted hb now⟩
      · rw [if_neg (by simp [hempty])]
        by_cases hnone : d = []
        · subst hnone
          have hr : e.insertAt f.now (place u) i now = _ :=
            hb ▸ e.insertAt_place hplain.left hi w now
          rw [if_pos (by simp [hempty]), hr]
          exact ⟨_, hfollows, by simpa [Frames.replaced, settle, hempty] using h.inserted hb hi now⟩
        · have hr : e.replaceSpan f.now (place u) (place (u ++ d)) d.isEmpty i = _ :=
            hb ▸ e.replaceSpan_place hd hi hempty (w := w)
          rw [if_neg (by simp [hnone]), hr]
          exact ⟨_, hfollows, by
            simpa [Frames.replaced, settle, hempty, hnone] using
              h.forget (hn ▸ hs) (place (u ++ i))⟩

/-- One call goes as the frames allow. -/
lemma At.call (h : e.At f) {c : Call} (hc : c.PlainText) : ∃ result, e.call c = some result ∧
    ∃ f', f.Follows c result.1.isOk f' ∧ result.2.At f' := by
  cases c with
  | setMode editing =>
    exact ⟨_, rfl, _, ⟨rfl, rfl⟩, rfl, h.buffer, h.cursor, h.plain, h.past, h.future, h.window⟩
  | moveCursor place =>
    exact ⟨_, rfl, _, ⟨rfl, rfl⟩, h.editing, h.buffer, rfl, h.plain, h.past, h.future, h.window⟩
  | insert text now => exact ⟨_, rfl, h.insert hc⟩
  | delete start stop now => exact ⟨_, rfl, h.delete start stop⟩
  | replaceContent text now => exact h.replaceContent hc
  | undo => exact ⟨_, rfl, h.undo⟩
  | redo => exact ⟨_, rfl, h.redo⟩

/-- And so does one call after another. -/
lemma At.run (h : e.At f) {calls : List Call} (hcalls : ∀ c ∈ calls, c.PlainText) :
    ∃ log e', e.run calls = some (log, e') ∧ log.map Prod.fst = calls ∧
      ∃ f', f.Run log f' ∧ e'.At f' := by
  induction calls generalizing e f with
  | nil => exact ⟨[], e, rfl, rfl, f, .nil, h⟩
  | cons c calls ih =>
    obtain ⟨⟨result, e₁⟩, hcall, f₁, hfollows, hat⟩ := h.call (hcalls c List.mem_cons_self)
    obtain ⟨log, e', hrun, hlog, f', hframes, hat'⟩ :=
      ih hat fun c' hc' => hcalls c' (List.mem_cons_of_mem _ hc')
    refine ⟨(c, result.isOk) :: log, e', ?_, by rw [List.map_cons, hlog], f',
      .cons hfollows hframes, hat'⟩
    rw [Editor.run, hcall, Option.bind_eq_bind, Option.bind_some]
    simp only [hrun]
    rfl

lemma at_ofBuffer (ht : Plain t) (mergeWindow : ℕ) :
    (ofBuffer t mergeWindow).At (Frames.ofBuffer t mergeWindow) :=
  ⟨rfl, rfl, rfl, ht, .nil, .nil, rfl⟩

/-- In a file whose lines end with line feeds alone, however edits, undoing and redoing follow on
each other: no call panics, edits do what they should at the cursor or in the range of the call, and
fail only where these are no places of the text; undoing and redoing never fail in edit mode, each
undo leads back to exactly the text before the edit, or the merged insertions, that it takes back,
and each redo on to the text after. -/
theorem run_follows (ht : Plain t) {calls : List Call} (hcalls : ∀ c ∈ calls, c.PlainText)
    (mergeWindow : ℕ) : ∃ log e, (ofBuffer t mergeWindow).run calls = some (log, e) ∧
      log.map Prod.fst = calls ∧ ∃ f, (Frames.ofBuffer t mergeWindow).Run log f ∧
        e.editing = f.editing ∧ e.buffer = some f.now ∧ e.cursor = f.cursor ∧
        e.undoStack.past.length = f.before.length ∧
        e.undoStack.future.length = f.after.length := by
  obtain ⟨log, e, hrun, hlog, f, hframes, hat⟩ := (at_ofBuffer ht mergeWindow).run hcalls
  exact ⟨log, e, hrun, hlog, f, hframes, hat.editing, hat.buffer, hat.cursor, hat.past.length,
    hat.future.length⟩

theorem run_follows_typed :
    let calls : List Call := [.setMode true, .moveCursor (1, 0), .insert ['b'] 0, .insert ['c'] 100,
      .undo, .redo, .replaceContent ['a', '\r', '\n', 'd'] 200, .delete (0, 0) (1, 0) 300, .undo]
    ∃ log e, (ofBuffer ['a', '\n'] 500).run calls = some (log, e) ∧ log.map Prod.fst = calls ∧
      ∃ f, (Frames.ofBuffer ['a', '\n'] 500).Run log f ∧ e.editing = f.editing ∧
        e.buffer = some f.now ∧ e.cursor = f.cursor ∧
        e.undoStack.past.length = f.before.length ∧ e.undoStack.future.length = f.after.length :=
  run_follows (by decide) (by decide) 500

end Editor

end Orchid.Viewer
