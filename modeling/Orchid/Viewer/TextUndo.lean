import Mathlib.Data.List.TakeWhile
import Orchid.Viewer.SpanDiff

/-!
# Undoing edits of a text

The edits of the text viewer with what they leave on the undo stack: operations with their lines and
columns, where inserts that follow on each other closely are merged. Undoing and redoing carry out
such an operation, or its inverse, at the lines and columns it was recorded with.
-/

namespace Orchid.Viewer

open Lib

open String (utf8Len)

/-! ### The undo stack -/

/-- `TextOpKind` -/
inductive TextOpKind
  | insert
  | delete
deriving DecidableEq

/-- `TextOp` -/
structure TextOp where
  kind : TextOpKind
  start : ℕ × ℕ
  stop : ℕ × ℕ
  text : Text
  timestamp : ℕ

/-- `UndoStack`, the last operation in front. -/
structure UndoStack where
  past : List TextOp
  future : List TextOp
  mergeWindow : ℕ

namespace UndoStack

/-- `can_merge` -/
def canMerge (prev next : TextOp) (window : ℕ) : Bool :=
  if prev.kind ≠ next.kind ∨ prev.kind ≠ .insert then false
  else if window < next.timestamp - prev.timestamp then false
  else prev.stop == next.start

/-- `push` -/
def push (stack : UndoStack) (op : TextOp) : UndoStack :=
  match stack.past with
  | [] => { stack with past := [op], future := [] }
  | prev :: past =>
    if canMerge prev op stack.mergeWindow then
      { stack with
        past := { prev with
          text := prev.text ++ op.text, stop := op.stop, timestamp := op.timestamp } :: past
        future := [] }
    else { stack with past := op :: prev :: past, future := [] }

/-- `undo` -/
def undo (stack : UndoStack) : Option TextOp × UndoStack :=
  match stack.past with
  | [] => (none, stack)
  | op :: past => (some op, { stack with past := past, future := op :: stack.future })

/-- `redo` -/
def redo (stack : UndoStack) : Option TextOp × UndoStack :=
  match stack.future with
  | [] => (none, stack)
  | op :: future => (some op, { stack with past := op :: stack.past, future := future })

/-- `clear` -/
def clear (stack : UndoStack) : UndoStack := { stack with past := [], future := [] }

end UndoStack

/-! ### The viewer -/

/-- What a `TextViewer` edits. -/
structure Editor where
  editing : Bool
  buffer : Option Text
  cursor : ℕ × ℕ
  undoStack : UndoStack

namespace Editor

/-- The result of a call and the viewer behind it. -/
abbrev Outcome := Except ViewerError Unit × Editor

/-- A call that changes nothing if it fails. -/
def settle (e : Editor) : Except ViewerError Editor → Outcome
  | .ok e' => (.ok (), e')
  | .error err => (.error err, e)

/-- The open buffer, in edit mode. -/
def opened (e : Editor) : Except ViewerError Text :=
  if e.editing then
    match e.buffer with
    | some buffer => .ok buffer
    | none => .error .editOutOfBounds
  else .error .editOutOfBounds

/-- A text goes into the buffer, and the operation on the undo stack. -/
def insertAt (e : Editor) (buffer : Text) (start : ℕ × ℕ) (text : Text) (now : ℕ) :
    Except ViewerError Editor := do
  let _ ← insertEdit buffer start text
  let buffer ← TextBuffer.insert buffer start text
  let stop := TextViewer.cursorAfterInsert start text
  return { e with
    buffer := some buffer, cursor := stop
    undoStack := e.undoStack.push ⟨.insert, start, stop, text, now⟩ }

/-- A range is taken out of the buffer, and the operation goes on the undo stack. -/
def deleteRange (e : Editor) (buffer : Text) (start stop : ℕ × ℕ) (now : ℕ) :
    Except ViewerError Editor := do
  let _ ← deleteEdit buffer start stop
  let deleted ← TextBuffer.textRange buffer start stop
  let buffer ← TextBuffer.delete buffer start stop
  return { e with
    buffer := some buffer, cursor := start
    undoStack := e.undoStack.push ⟨.delete, start, stop, deleted, now⟩ }

/-- `insert` -/
def insert (e : Editor) (text : Text) (now : ℕ) : Outcome :=
  e.settle do
    let buffer ← e.opened
    e.insertAt buffer e.cursor text now

/-- `delete` -/
def delete (e : Editor) (start stop : ℕ × ℕ) (now : ℕ) : Outcome :=
  e.settle do
    let buffer ← e.opened
    e.deleteRange buffer start stop now

/-- What `replace_content` does with a difference that is no deletion and no insertion alone. -/
def replaceSpan (e : Editor) (buffer : Text) (start stop : ℕ × ℕ) (deletedEmpty : Bool)
    (inserted : Text) : Except ViewerError Editor := do
  let shorter ←
    if !deletedEmpty then TextBuffer.delete buffer start stop else .ok buffer
  let buffer ←
    if !inserted.isEmpty then TextBuffer.insert shorter start inserted else .ok shorter
  return { e with
    buffer := some buffer, cursor := TextViewer.cursorAfterInsert start inserted
    undoStack := e.undoStack.clear }

/-- `replace_content`, without a value where it panics. -/
def replaceContent (e : Editor) (text : Text) (now : ℕ) : Option Outcome :=
  match e.opened with
  | .error err => some (.error err, e)
  | .ok buffer =>
    let normalized := TextViewer.normalizeLines text
    if buffer = normalized then some (.ok (), e)
    else
      match TextBuffer.singleSpanDiff buffer normalized with
      | none =>
        some (.ok (), { e with
          buffer := some normalized, cursor := (0, 0), undoStack := e.undoStack.clear })
      | some (startByte, oldEnd, newEnd) =>
        let start := lineColAtChar buffer (byteToChar buffer startByte)
        let stop := lineColAtChar buffer (byteToChar buffer oldEnd)
        let deletedEmpty := startByte == oldEnd
        (sliceBytes normalized startByte newEnd).map fun inserted =>
          e.settle <|
            if !deletedEmpty && inserted.isEmpty then e.deleteRange buffer start stop now
            else if deletedEmpty && !inserted.isEmpty then e.insertAt buffer start inserted now
            else e.replaceSpan buffer start stop deletedEmpty inserted

/-- An operation taken back: what was inserted is deleted, and what was deleted inserted. -/
def revert (e : Editor) (op : TextOp) : Except ViewerError Editor := do
  let buffer ← e.opened
  match op.kind with
  | .insert =>
    let _ ← deleteEdit buffer op.start op.stop
    let buffer ← TextBuffer.delete buffer op.start op.stop
    return { e with buffer := some buffer, cursor := op.start }
  | .delete =>
    let _ ← insertEdit buffer op.start op.text
    let buffer ← TextBuffer.insert buffer op.start op.text
    return { e with buffer := some buffer, cursor := op.stop }

/-- An operation carried out once more. -/
def repeatOp (e : Editor) (op : TextOp) : Except ViewerError Editor := do
  let buffer ← e.opened
  match op.kind with
  | .insert =>
    let _ ← insertEdit buffer op.start op.text
    let buffer ← TextBuffer.insert buffer op.start op.text
    return { e with buffer := some buffer, cursor := op.stop }
  | .delete =>
    let _ ← deleteEdit buffer op.start op.stop
    let buffer ← TextBuffer.delete buffer op.start op.stop
    return { e with buffer := some buffer, cursor := op.start }

/-- `undo`; the stacks change before the buffer does. -/
def undo (e : Editor) : Outcome :=
  if !e.editing then (.error .editOutOfBounds, e)
  else
    match e.undoStack.undo with
    | (none, _) => (.ok (), e)
    | (some op, stack) =>
      let e := { e with undoStack := stack }
      e.settle (e.revert op)

/-- `redo` -/
def redo (e : Editor) : Outcome :=
  if !e.editing then (.error .editOutOfBounds, e)
  else
    match e.undoStack.redo with
    | (none, _) => (.ok (), e)
    | (some op, stack) =>
      let e := { e with undoStack := stack }
      e.settle (e.repeatOp op)

/-- The calls that edit a buffer and move about in it. -/
inductive Call
  | setMode (editing : Bool)
  | moveCursor (place : ℕ × ℕ)
  | insert (text : Text) (now : ℕ)
  | delete (start stop : ℕ × ℕ) (now : ℕ)
  | replaceContent (text : Text) (now : ℕ)
  | undo
  | redo

/-- A call; without a value it panics. -/
def call (e : Editor) : Call → Option Outcome
  | .setMode editing => some (.ok (), { e with editing := editing })
  | .moveCursor place => some (.ok (), { e with cursor := place })
  | .insert text now => some (e.insert text now)
  | .delete start stop now => some (e.delete start stop now)
  | .replaceContent text now => e.replaceContent text now
  | .undo => some e.undo
  | .redo => some e.redo

/-- One call after another, with which ones succeeded, and the viewer behind them. -/
def run (e : Editor) : List Call → Option (List (Call × Bool) × Editor)
  | [] => some ([], e)
  | c :: calls => do
    let (result, e) ← e.call c
    let (log, e) ← run e calls
    return ((c, result.isOk) :: log, e)

/-- A file is opened. -/
def ofBuffer (buffer : Text) (mergeWindow : ℕ) : Editor where
  editing := false
  buffer := some buffer
  cursor := (0, 0)
  undoStack := ⟨[], [], mergeWindow⟩

end Editor

/-! ### Writing a new content -/

variable {t t' u v d i s w : Text} {c : Char} {p : ℕ × ℕ}

lemma beq_utf8Len (u d : Text) : (utf8Len u == utf8Len (u ++ d)) = d.isEmpty := by
  cases d with
  | nil => simp
  | cons c d =>
    have hpos := Char.utf8Size_pos c
    simp only [String.utf8Len_append, String.utf8Len_cons, List.isEmpty_cons,
      beq_eq_false_iff_ne]
    omega

namespace TextBuffer

lemma insert_cut (u s w text : Text) :
    insert (u ++ w) (lineColAtChar (u ++ (s ++ w)) u.length) text =
      .ok ((u ++ w).take (landing u s w) ++ text ++ (u ++ w).drop (landing u s w)) := by
  rw [insert, lineColToChar_landing]

lemma insert_self (u w text : Text) :
    insert (u ++ w) (lineColAtChar (u ++ w) u.length) text = .ok (u ++ (text ++ w)) := by
  rw [insert, lineColToChar_self]
  simp

lemma delete_cut (u s w : Text) : delete (u ++ (s ++ w))
    (lineColAtChar (u ++ (s ++ w)) u.length) (lineColAtChar (u ++ (s ++ w)) (u ++ s).length) =
      .ok (u ++ w) := by
  have hend := lineColToChar_self (u ++ s) w
  rw [List.append_assoc] at hend
  rw [delete, lineColToChar_self, hend]
  simp only [List.length_append, Nat.not_lt.mpr (Nat.le_add_right _ _), if_false, List.take_left]
  rw [← List.length_append, ← List.append_assoc, List.drop_left]

end TextBuffer

namespace Editor

variable {e e' : Editor} {now : ℕ}

/-- An insertion between two characters succeeds. -/
lemma insertAt_self (e : Editor) (u w s : Text) (now : ℕ) :
    e.insertAt (u ++ w) (lineColAtChar (u ++ w) u.length) s now = .ok { e with
      buffer := some (u ++ (s ++ w))
      cursor := TextViewer.cursorAfterInsert (lineColAtChar (u ++ w) u.length) s
      undoStack := e.undoStack.push ⟨.insert, lineColAtChar (u ++ w) u.length,
        TextViewer.cursorAfterInsert (lineColAtChar (u ++ w) u.length) s, s, now⟩ } := by
  obtain ⟨edit, hedit⟩ := exists_insertEdit u [] w s
  rw [List.nil_append] at hedit
  rw [insertAt, hedit, TextBuffer.insert_self]
  rfl

/-- A deletion from one character to another succeeds. -/
lemma deleteRange_self (e : Editor) (u s w : Text) (now : ℕ) :
    e.deleteRange (u ++ (s ++ w)) (lineColAtChar (u ++ (s ++ w)) u.length)
      (lineColAtChar (u ++ (s ++ w)) (u ++ s).length) now = .ok { e with
        buffer := some (u ++ w), cursor := lineColAtChar (u ++ (s ++ w)) u.length
        undoStack := e.undoStack.push ⟨.delete, lineColAtChar (u ++ (s ++ w)) u.length,
          lineColAtChar (u ++ (s ++ w)) (u ++ s).length, s, now⟩ } := by
  obtain ⟨edit, hedit⟩ := exists_deleteEdit u s w
  rw [deleteRange, hedit, TextBuffer.textRange_cut, TextBuffer.delete_cut]
  rfl

/-- And so does what is neither. -/
lemma replaceSpan_self (e : Editor) (u d w i : Text) : e.replaceSpan (u ++ (d ++ w))
    (lineColAtChar (u ++ (d ++ w)) u.length) (lineColAtChar (u ++ (d ++ w)) (u ++ d).length)
      d.isEmpty i = .ok { e with
        buffer := some (if i = [] then u ++ w
          else (u ++ w).take (landing u d w) ++ i ++ (u ++ w).drop (landing u d w))
        cursor := TextViewer.cursorAfterInsert (lineColAtChar (u ++ (d ++ w)) u.length) i
        undoStack := e.undoStack.clear } := by
  have hinsert := TextBuffer.insert_cut u d w i
  rw [replaceSpan, TextBuffer.delete_cut]
  cases d with
  | nil =>
    cases i with
    | nil => rfl
    | cons c i =>
      rw [List.nil_append] at hinsert ⊢
      simp only [List.isEmpty_nil, Bool.not_true, Bool.false_eq_true, if_false, bind, Except.bind,
        List.isEmpty_cons, Bool.not_false, if_true, hinsert]
      rfl
  | cons c d =>
    cases i with
    | nil => rfl
    | cons c' i =>
      simp only [List.isEmpty_cons, Bool.not_false, if_true, bind, Except.bind, hinsert]
      rfl

lemma opened_eq (hedit : e.editing = true) (hbuffer : e.buffer = some t) : e.opened = .ok t := by
  simp [opened, hedit, hbuffer]

/-- The difference that is written in one of three ways, none of which fails. -/
lemma replaceContent_eq (hedit : e.editing = true) (hbuffer : e.buffer = some t) {text : Text}
    (hne : t ≠ TextViewer.normalizeLines text) (hb : t = u ++ (d ++ w))
    (hn : TextViewer.normalizeLines text = u ++ (i ++ w))
    (hdiff : TextViewer.singleSpanDiff t (TextViewer.normalizeLines text) = (u, d, i)) :
    e.replaceContent text now = some (e.settle <|
      if !d.isEmpty && i.isEmpty then e.deleteRange t (lineColAtChar t u.length)
        (lineColAtChar t (u ++ d).length) now
      else if d.isEmpty && !i.isEmpty then e.insertAt t (lineColAtChar t u.length) i now
      else e.replaceSpan t (lineColAtChar t u.length) (lineColAtChar t (u ++ d).length)
        d.isEmpty i) := by
  have hslice : sliceBytes (TextViewer.normalizeLines text) (utf8Len u) (utf8Len (u ++ i)) =
      some i :=
    sliceBytes_eq_some_iff.mpr ⟨u, w, by rw [hn, List.append_assoc], rfl, by simp⟩
  have hstart : byteToChar t (utf8Len u) = u.length := by rw [hb, byteToChar_append]
  have hstop : byteToChar t (utf8Len (u ++ d)) = (u ++ d).length := by
    rw [hb, ← List.append_assoc, byteToChar_append]
  rw [replaceContent, opened_eq hedit hbuffer]
  simp only [if_neg hne]
  rw [TextBuffer.singleSpanDiff_eq, if_neg hne, hdiff]
  simp only [hslice, hstart, hstop, beq_utf8Len, Option.map_some]

/-- Comparing the bytes and writing the difference in one of three ways has the effect of
deleting and inserting what differs as lists of characters, and no byte of a character is cut. -/
lemma replaceContent_viewer {v : TextViewer} (hedit : e.editing = true) (hmode : v.editing = true)
    (hbuffer : e.buffer = some v.buffer) (text : Text) (now : ℕ) : ∃ e' v',
      e.replaceContent text now = some (.ok (), e') ∧ v.replaceContent text = .ok v' ∧
        e'.buffer = some v'.buffer := by
  by_cases hsame : v.buffer = TextViewer.normalizeLines text
  · refine ⟨e, v, ?_, ?_, hbuffer⟩
    · rw [replaceContent, opened_eq hedit hbuffer]
      simp only [if_pos hsame]
    · rw [TextViewer.replaceContent, if_neg (by simp [hmode])]
      simp only [if_pos hsame]
  · obtain ⟨w, hb, hn⟩ := singleSpanDiff_spec v.buffer (TextViewer.normalizeLines text)
    obtain ⟨u, d, i, hdiff⟩ : ∃ u d i,
        TextViewer.singleSpanDiff v.buffer (TextViewer.normalizeLines text) = (u, d, i) :=
      ⟨_, _, _, rfl⟩
    rw [hdiff] at hb hn
    rw [replaceContent_eq hedit hbuffer hsame hb hn hdiff]
    rw [TextViewer.replaceContent_cut hmode hsame hb hdiff]
    rw [hb]
    cases d with
    | nil =>
      cases i with
      | nil => exact absurd (hb.trans hn.symm) hsame
      | cons c i =>
        have hnot : ¬ Joined u [] w := fun h => h.2.1 h.2.2
        simp only [List.nil_append, List.append_nil, List.isEmpty_nil, List.isEmpty_cons,
          Bool.not_true, Bool.not_false, Bool.false_and, Bool.and_true, Bool.false_eq_true,
          if_false, if_true, insertAt_self]
        refine ⟨_, _, rfl, rfl, ?_⟩
        simp [landing, if_neg hnot]
    | cons c d =>
      cases i with
      | nil =>
        simp only [List.isEmpty_nil, List.isEmpty_cons, Bool.not_false, Bool.and_true, if_true,
          deleteRange_self]
        exact ⟨_, _, rfl, rfl, rfl⟩
      | cons c' i =>
        have hspan := e.replaceSpan_self u (c :: d) w (c' :: i)
        rw [List.isEmpty_cons] at hspan
        simp only [List.isEmpty_cons, Bool.not_false, Bool.and_false, Bool.false_and,
          Bool.false_eq_true, if_false, hspan]
        exact ⟨_, _, rfl, rfl, rfl⟩

/-- Writing a content in edit mode never fails, and leaves the text with its pairs of CR and LF made
one, but for an insertion that lands behind the line feed that the deletion brought to a carriage
return. -/
theorem replaceContent_writes (hedit : e.editing = true) (hbuffer : e.buffer = some t)
    (text : Text) (now : ℕ) : ∃ e' t',
      e.replaceContent text now = some (.ok (), e') ∧ e'.buffer = some t' ∧
      (¬ Displaced t (TextViewer.normalizeLines text) → t' = TextViewer.normalizeLines text) ∧
      (Displaced t (TextViewer.normalizeLines text) → ∃ u i w, u.getLast? = some '\r' ∧ i ≠ [] ∧
        TextViewer.normalizeLines text = u ++ (i ++ '\n' :: w) ∧
          t' = u ++ ('\n' :: (i ++ w))) := by
  obtain ⟨e', v', he, hv, hsame⟩ := replaceContent_viewer
    (v := { Viewer.opened t with editing := true }) hedit rfl hbuffer text now
  obtain ⟨v'', hv', hrest⟩ := TextViewer.replaceContent_spec
    (v := { Viewer.opened t with editing := true }) rfl text
  obtain rfl := Except.ok.inj (hv.symm.trans hv')
  exact ⟨e', v'.buffer, he, hsame, hrest⟩

/-- Between a carriage return and a line feed one letter takes the place of another. -/
theorem replaceContent_writes_between : ∃ e',
    ({ ofBuffer ['\r', 'a', '\n'] 500 with editing := true }).replaceContent
      ['\r', 'é', '\n'] 0 = some (.ok (), e') ∧ e'.buffer = some ['\r', '\n', 'é'] := by
  obtain ⟨e', t', he, hbuffer, -, hdisplaced⟩ := replaceContent_writes
    (e := { ofBuffer ['\r', 'a', '\n'] 500 with editing := true }) rfl rfl ['\r', 'é', '\n'] 0
  obtain ⟨u, i, w, hlast, hi, hn, rfl⟩ :=
    hdisplaced ⟨by decide, by decide, ['\n'], by decide, by decide⟩
  rw [show TextViewer.normalizeLines ['\r', 'é', '\n'] = ['\r', 'é', '\n'] by decide] at hn
  have hlen := congrArg List.length hn
  have hu := List.length_pos_of_mem (List.mem_of_getLast? hlast)
  have hi := List.length_pos_iff.mpr hi
  simp only [List.length_append, List.length_cons, List.length_nil] at hlen
  obtain ⟨c, rfl⟩ := List.length_eq_one_iff.mp (by omega : u.length = 1)
  obtain ⟨d, rfl⟩ := List.length_eq_one_iff.mp (by omega : i.length = 1)
  obtain rfl := List.eq_nil_of_length_eq_zero (by omega : w.length = 0)
  obtain ⟨rfl, rfl⟩ : '\r' = c ∧ 'é' = d := by simpa using hn
  exact ⟨e', he, hbuffer⟩

end Editor

/-! ### Positions of texts with one kind of line break -/

/-- Not a line break, but for the line feed. -/
def isPlain (c : Char) : Bool :=
  !(c == '\r' || c == '\x0b' || c == '\x0c' || c == '\u0085' || c == '\u2028' || c == '\u2029')

/-- Only line feeds end the lines of a text. -/
def Plain (t : Text) : Prop := ∀ c ∈ t, isPlain c = true

instance (t : Text) : Decidable (Plain t) := List.decidableBAll _ t

/-- The line and column behind a text. -/
def place (u : Text) : ℕ × ℕ := lineCol endsLine u u.length

lemma endsLine_of_plain (h : isPlain c = true) (next : Option Char) :
    endsLine c next = (c == '\n') := by
  simp only [isPlain, Bool.not_eq_true', Bool.or_eq_false_iff] at h
  simp [endsLine, h]

lemma Plain.append (hu : Plain u) (hw : Plain w) : Plain (u ++ w) := fun c hc =>
  (List.mem_append.mp hc).elim (hu c) (hw c)

lemma Plain.left (h : Plain (u ++ w)) : Plain u := fun c hc => h c (List.mem_append_left _ hc)

lemma Plain.right (h : Plain (u ++ w)) : Plain w := fun c hc => h c (List.mem_append_right _ hc)

lemma Plain.head (h : Plain (c :: t)) : isPlain c = true := h c List.mem_cons_self

lemma Plain.tail (h : Plain (c :: t)) : Plain t := fun d hd => h d (List.mem_cons_of_mem _ hd)

@[simp] lemma place_nil : place [] = (0, 0) := rfl

lemma place_cons_newline (u : Text) : place ('\n' :: u) = ((place u).1 + 1, (place u).2) := by
  rw [place, List.length_cons, lineCol_cons]
  · rfl
  · simp [endsLine]

lemma place_cons (h : isPlain c = true) (hc : c ≠ '\n') :
    place (c :: u) = if (place u).1 = 0 then (0, (place u).2 + 1) else place u := by
  have hends : endsLine c u.head? = false := by
    rw [endsLine_of_plain h]
    simpa using hc
  rw [place, List.length_cons, lineCol, hends]
  rfl

/-- What is behind a place of a plain text does not change its line and column. -/
lemma lineColAtChar_append_plain (h : Plain u) (w : Text) :
    lineColAtChar (u ++ w) u.length = place u := by
  rw [lineColAtChar_append]
  induction u with
  | nil => cases w <;> rfl
  | cons c u ih =>
    have hu := ih h.tail
    rw [place, List.cons_append, List.length_cons, lineCol, lineCol, hu,
      endsLine_of_plain h.head, endsLine_of_plain h.head]
    rfl

lemma not_joined (h : Plain u) : ¬ Joined u s w := by
  rintro ⟨hlast, -, -⟩
  have hcr := h '\r' (List.mem_of_getLast? hlast)
  exact absurd hcr (by decide)

/-- The line and column of a place lead back to it. -/
lemma lineColToChar_place (h : Plain u) (w : Text) :
    lineColToChar (u ++ w) (place u) = some u.length := by
  rw [← lineColAtChar_append_plain h w]
  exact lineColToChar_self u w

/-- Two starts of a text with one line and column are the same. -/
lemma place_inj (hu : Plain u) (hv : Plain v) (ht : u ++ w = v ++ s) (h : place u = place v) :
    u = v := by
  have hlen : u.length = v.length := by
    have hplace := lineColToChar_place hu w
    rw [ht, h, lineColToChar_place hv s] at hplace
    exact (Option.some.inj hplace).symm
  exact (List.append_inj ht hlen).1

/-- Without a line feed the last line is the whole text. -/
lemma lastLine_whole (h : ∀ c ∈ s, c ≠ '\n') :
    (s.reverse.takeWhile fun c => c != '\n') = s.reverse := by
  rw [List.takeWhile_eq_self_iff]
  simpa using h

lemma lastLine_part (h : ¬ ∀ c ∈ s, c ≠ '\n') :
    (s.reverse.takeWhile fun c => c != '\n').length ≠ s.reverse.length := by
  intro hlen
  have hwhole := (List.takeWhile_prefix fun c => c != '\n').eq_of_length hlen
  rw [List.takeWhile_eq_self_iff] at hwhole
  exact h (by simpa using hwhole)

/-- The line of a place of a plain text is the number of line feeds before it, and its column the
number of characters since. -/
lemma place_eq (hu : Plain u) : place u = ((u.filter fun c => c == '\n').length,
    (u.reverse.takeWhile fun c => c != '\n').length) := by
  induction u with
  | nil => rfl
  | cons c u ih =>
    have hplace := ih hu.tail
    rw [List.reverse_cons, List.takeWhile_append]
    by_cases hall : ∀ d ∈ u, d ≠ '\n'
    · have hnone : u.filter (fun d => d == '\n') = [] := by simpa using hall
      rw [hnone, lastLine_whole hall] at hplace
      rw [lastLine_whole hall, if_pos rfl]
      by_cases hc : c = '\n'
      · subst hc
        simp [place_cons_newline, hplace, hnone]
      · simp [place_cons hu.head hc, hplace, hnone, hc]
    · rw [if_neg (lastLine_part hall)]
      by_cases hc : c = '\n'
      · subst hc
        simp [place_cons_newline, hplace]
      · rw [place_cons hu.head hc, hplace, if_neg (by simpa using hall)]
        simp [hc]

/-- The cursor behind an inserted text. -/
lemma cursorAfterInsert_place (hu : Plain u) (hs : Plain s) :
    TextViewer.cursorAfterInsert (place u) s = place (u ++ s) := by
  rw [place_eq hu, place_eq (hu.append hs), TextViewer.cursorAfterInsert, List.reverse_append,
    List.takeWhile_append]
  by_cases hall : ∀ c ∈ s, c ≠ '\n'
  · have hnone : s.filter (fun c => c == '\n') = [] := by simpa using hall
    rw [if_pos (by simpa using hall), lastLine_whole hall, if_pos rfl]
    simp [hnone, Nat.add_comm]
  · rw [if_neg (by simpa using hall), if_neg (lastLine_part hall)]
    simp

/-! ### The points of the parser -/

namespace TextBuffer

lemma line_newline_zero (t : Text) : line ('\n' :: t) 0 = some [] := by
  simp [line, endsLine]

lemma line_newline_succ (t : Text) (n : ℕ) : line ('\n' :: t) (n + 1) = line t n := by
  simp [line, endsLine]

lemma line_cons_zero (h : isPlain c = true) (hc : c ≠ '\n') :
    line (c :: t) 0 = (line t 0).map fun rest => c :: rest := by
  rw [line, endsLine_of_plain h]
  simp [hc]

lemma line_cons_succ (h : isPlain c = true) (hc : c ≠ '\n') (n : ℕ) :
    line (c :: t) (n + 1) = line t (n + 1) := by
  rw [line, endsLine_of_plain h]
  simp [hc]

/-- The parser has points for no other lines and columns. -/
lemma exists_place (ht : Plain t) (h : (treeSitterPoint t p).isSome) :
    ∃ u w, t = u ++ w ∧ p = place u := by
  obtain ⟨n, col⟩ := p
  rw [treeSitterPoint_isSome] at h
  simp only at h
  induction t generalizing n col with
  | nil =>
    obtain ⟨l, hl, hle⟩ := h
    cases n with
    | zero =>
      obtain rfl : l = [] := by simpa [line] using hl.symm
      obtain rfl : col = 0 := by simpa using hle
      exact ⟨[], [], rfl, rfl⟩
    | succ n => simp [line] at hl
  | cons c t ih =>
    obtain ⟨l, hl, hle⟩ := h
    by_cases hzero : n = 0 ∧ col = 0
    · obtain ⟨rfl, rfl⟩ := hzero
      exact ⟨[], c :: t, rfl, rfl⟩
    by_cases hc : c = '\n'
    · subst hc
      cases n with
      | zero =>
        rw [line_newline_zero] at hl
        obtain rfl := Option.some.inj hl
        exact absurd ⟨rfl, by simpa using hle⟩ hzero
      | succ n =>
        rw [line_newline_succ] at hl
        obtain ⟨u, w, rfl, hu⟩ := ih ht.tail n col ⟨l, hl, hle⟩
        exact ⟨'\n' :: u, w, rfl, by rw [place_cons_newline, ← hu]⟩
    · cases n with
      | zero =>
        rw [line_cons_zero ht.head hc] at hl
        obtain ⟨rest, hrest, rfl⟩ := Option.map_eq_some_iff.mp hl
        obtain ⟨col, rfl⟩ := Nat.exists_eq_succ_of_ne_zero fun h => hzero ⟨rfl, h⟩
        obtain ⟨u, w, rfl, hu⟩ := ih ht.tail 0 col ⟨rest, hrest, Nat.le_of_succ_le_succ hle⟩
        exact ⟨c :: u, w, rfl, by rw [place_cons ht.head hc, ← hu, if_pos rfl]⟩
      | succ n =>
        rw [line_cons_succ ht.head hc] at hl
        obtain ⟨u, w, rfl, hu⟩ := ih ht.tail (n + 1) col ⟨l, hl, hle⟩
        exact ⟨c :: u, w, rfl, by rw [place_cons ht.head hc, ← hu, if_neg (Nat.succ_ne_zero n)]⟩

end TextBuffer

/-! ### Edits at places -/

variable {e e' : Editor} {op : TextOp} {now : ℕ}

lemma insertEdit_place (hu : Plain u) (w s : Text) :
    ∃ edit, insertEdit (u ++ w) (place u) s = .ok edit := by
  rw [← lineColAtChar_append_plain hu w]
  exact exists_insertEdit u [] w s

lemma deleteEdit_place (h : Plain (u ++ s)) (w : Text) :
    ∃ edit, deleteEdit (u ++ (s ++ w)) (place u) (place (u ++ s)) = .ok edit := by
  rw [← lineColAtChar_append_plain h.left (s ++ w), ← lineColAtChar_append_plain h w,
    List.append_assoc]
  exact exists_deleteEdit u s w

lemma isSome_of_insertEdit {edit : InputEdit} (h : insertEdit t p s = .ok edit) :
    (TextBuffer.treeSitterPoint t p).isSome := by
  rw [insertEdit] at h
  split at h
  · simp [*]
  · cases h

lemma isSome_of_deleteEdit {edit : InputEdit} {q : ℕ × ℕ} (h : deleteEdit t p q = .ok edit) :
    (TextBuffer.treeSitterPoint t p).isSome ∧ (TextBuffer.treeSitterPoint t q).isSome := by
  rw [deleteEdit] at h
  split at h
  · simp [*]
  · cases h

/-- What goes on with the result of a first step had that step succeed. -/
lemma step_ok {ε α β : Type} {x : Except ε α} {f : α → Except ε β} {b : β}
    (h : (x >>= f) = .ok b) : ∃ a, x = .ok a ∧ f a = .ok b := by
  cases x with
  | error err => cases h
  | ok a => exact ⟨a, rfl, h⟩

namespace TextBuffer

lemma insert_place (hu : Plain u) (w s : Text) :
    TextBuffer.insert (u ++ w) (place u) s = .ok (u ++ (s ++ w)) := by
  rw [← lineColAtChar_append_plain hu w, insert_self]

lemma delete_place (h : Plain (u ++ s)) (w : Text) :
    TextBuffer.delete (u ++ (s ++ w)) (place u) (place (u ++ s)) = .ok (u ++ w) := by
  rw [← lineColAtChar_append_plain h.left (s ++ w), ← lineColAtChar_append_plain h w,
    List.append_assoc, delete_cut]

/-- A range that is taken out lies between two places. -/
lemma exists_range (ht : Plain t) {start stop : ℕ × ℕ} (hstart : (treeSitterPoint t start).isSome)
    (hstop : (treeSitterPoint t stop).isSome) (h : textRange t start stop = .ok s) :
    ∃ u d w, t = u ++ (d ++ w) ∧ start = place u ∧ stop = place (u ++ d) := by
  obtain ⟨u, w, rfl, rfl⟩ := exists_place ht hstart
  obtain ⟨v, w', hv, rfl⟩ := exists_place ht hstop
  have hstop' := lineColToChar_place (hv ▸ ht : Plain (v ++ w')).left w'
  rw [← hv] at hstop'
  rw [textRange, lineColToChar_place ht.left, hstop'] at h
  by_cases hlt : v.length < u.length
  · simp [hlt] at h
  · obtain ⟨d, rfl⟩ := List.prefix_of_prefix_length_le (List.prefix_append u w) ⟨w', hv.symm⟩
      (Nat.le_of_not_lt hlt)
    refine ⟨u, d, w', ?_, rfl, rfl⟩
    rw [hv, List.append_assoc]

end TextBuffer

namespace Editor

lemma insertAt_place (e : Editor) (hu : Plain u) (hs : Plain s) (w : Text) (now : ℕ) :
    e.insertAt (u ++ w) (place u) s now = .ok { e with
      buffer := some (u ++ (s ++ w)), cursor := place (u ++ s)
      undoStack := e.undoStack.push ⟨.insert, place u, place (u ++ s), s, now⟩ } := by
  rw [← cursorAfterInsert_place hu hs, ← lineColAtChar_append_plain hu w, insertAt_self]

lemma deleteRange_place (e : Editor) (h : Plain (u ++ s)) (w : Text) (now : ℕ) :
    e.deleteRange (u ++ (s ++ w)) (place u) (place (u ++ s)) now = .ok { e with
      buffer := some (u ++ w), cursor := place u
      undoStack := e.undoStack.push ⟨.delete, place u, place (u ++ s), s, now⟩ } := by
  rw [← lineColAtChar_append_plain h.left (s ++ w), ← lineColAtChar_append_plain h w,
    List.append_assoc, deleteRange_self]

/-- A text that is inserted goes to a place. -/
lemma exists_insertAt (ht : Plain t) {start : ℕ × ℕ} (h : e.insertAt t start s now = .ok e') :
    ∃ u w, t = u ++ w ∧ start = place u := by
  obtain ⟨edit, hedit, -⟩ := step_ok h
  exact TextBuffer.exists_place ht (isSome_of_insertEdit hedit)

/-- A range that is deleted lies between places. -/
lemma exists_deleteRange (ht : Plain t) {start stop : ℕ × ℕ}
    (h : e.deleteRange t start stop now = .ok e') :
    ∃ u d w, t = u ++ (d ++ w) ∧ start = place u ∧ stop = place (u ++ d) := by
  obtain ⟨edit, hedit, h⟩ := step_ok h
  obtain ⟨deleted, hrange, -⟩ := step_ok h
  obtain ⟨hstart, hstop⟩ := isSome_of_deleteEdit hedit
  exact TextBuffer.exists_range ht hstart hstop hrange

end Editor

end Orchid.Viewer
