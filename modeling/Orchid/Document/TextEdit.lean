import Orchid.Document.Undo

/-!
# What the text commands do

One statement for each function under `insertText` and `deleteRange` that says everything a
successful call does to the paragraph and the document.
-/

namespace Orchid.Document

open Lib
open String (utf8Len)

/-! ### Finding the paragraph -/

lemma get?_bodyParagraph (d : Document) (i : ℕ) :
    (bodyParagraph i).get? d = paragraphAt d.blocks i := by
  show (d.blocks[i]?.bind _) = _
  unfold paragraphAt
  cases d.blocks[i]? with
  | none => rfl
  | some block => cases block <;> rfl

lemma get?_bodyTable (d : Document) (i : ℕ) : (bodyTable i).get? d = tableAt d.blocks i := by
  show (d.blocks[i]?.bind _) = _
  unfold tableAt
  cases d.blocks[i]? with
  | none => rfl
  | some block => cases block <;> rfl

/-- Borrowing and reading find the same paragraph. -/
lemma get?_paragraphMut (d : Document) (c : Cursor) :
    (paragraphMut c).get? d = paragraphRef d.blocks c := by
  obtain ⟨bi, cell, run, off⟩ := c
  cases cell with
  | none => exact get?_bodyParagraph d bi
  | some path =>
    simp only [paragraphMut, bodyCell, Focus.get?_comp, get?_bodyTable, paragraphRef, Table.cellAt,
      Option.bind_eq_bind, Option.bind_assoc]
    rfl

/-- The end of a text behind a cursor does not come before the cursor. -/
lemma normalized_after (c : Cursor) (n : ℕ) :
    (Selection.mk c { c with byteOffset := c.byteOffset + n }).normalized =
      (c, { c with byteOffset := c.byteOffset + n }) := by
  have hpath : ∀ path : CellPath, cmpCellPath path path = .eq := by
    intro path
    obtain ⟨r, k, p, img⟩ := path
    cases img <;> simp [cmpCellPath]
  have hcmp : cmpCursor c { c with byteOffset := c.byteOffset + n } ≠ .gt := by
    obtain ⟨bi, cell, run, off⟩ := c
    cases cell with
    | none =>
      simp only [cmpCursor, Std.ReflCmp.compare_self]
      grind
    | some path =>
      simp only [cmpCursor, Std.ReflCmp.compare_self, hpath]
      grind
  rw [Selection.normalized, if_neg hcmp]

/-! ### Inserting -/

lemma insertTextInParagraph_nil {pos : Cursor} {text : Text} {p : Paragraph} (h : p.runs = []) :
    (insertTextInParagraph pos text).run p = .ok () (p.withRuns [{ text }]) := by
  simp [insertTextInParagraph, h]

/-- Inserting into a paragraph with runs. -/
lemma insertTextInParagraph_eq_ok_iff {pos : Cursor} {text : Text} {p p' : Paragraph}
    (h : p.runs ≠ []) : (insertTextInParagraph pos text).run p = .ok () p' ↔
      ∃ run u v, p.runs[pos.runIdx]? = some run ∧ run.text = u ++ v ∧
        utf8Len u = pos.byteOffset ∧
        p' = p.withRuns (p.runs.set pos.runIdx (run.withText (u ++ text ++ v))) := by
  constructor
  · intro hok
    cases hrun : p.runs[pos.runIdx]? with
    | none => simp [insertTextInParagraph, h, hrun] at hok
    | some run =>
      by_cases hgt : pos.byteOffset > utf8Len run.text
      · simp [insertTextInParagraph, h, hrun, hgt] at hok
      · cases hins : insertAtByte run.text pos.byteOffset text with
        | none => simp [insertTextInParagraph, h, hrun, hgt, hins] at hok
        | some t =>
          obtain ⟨u, v, ht, hu, rfl⟩ := insertAtByte_eq_some_iff.mp hins
          refine ⟨run, u, v, rfl, ht, hu, Eq.symm ?_⟩
          simpa [insertTextInParagraph, h, hrun, hgt, hins] using hok
  · rintro ⟨run, u, v, hrun, ht, hu, rfl⟩
    have hins : insertAtByte run.text pos.byteOffset text = some (u ++ text ++ v) :=
      insertAtByte_eq_some_iff.mpr ⟨u, v, ht, hu, rfl⟩
    have hle : ¬ pos.byteOffset > utf8Len run.text := by
      rw [ht, String.utf8Len_append]
      omega
    simp [insertTextInParagraph, h, hrun, hle, hins]

/-! ### Deleting -/

/-- Deleting inside one run. -/
lemma deleteInParagraph_eq_ok_iff {start stop : Cursor} {p p' : Paragraph}
    (h : start.runIdx = stop.runIdx) : (deleteInParagraph start stop).run p = .ok () p' ↔
      ∃ run u s w, p.runs[start.runIdx]? = some run ∧ run.text = u ++ s ++ w ∧
        utf8Len u = start.byteOffset ∧ start.byteOffset + utf8Len s = stop.byteOffset ∧
        p' = p.withRuns (p.runs.set start.runIdx (run.withText (u ++ w))) := by
  constructor
  · intro hok
    cases hrun : p.runs[start.runIdx]? with
    | none => simp [deleteInParagraph, hrun] at hok
    | some run =>
      by_cases hout : start.byteOffset > stop.byteOffset ∨ stop.byteOffset > utf8Len run.text
      · simp [deleteInParagraph, h, h ▸ hrun, hout] at hok
      · cases hdrain : drainBytes run.text start.byteOffset stop.byteOffset with
        | none => simp [deleteInParagraph, h, h ▸ hrun, hout, hdrain] at hok
        | some t =>
          obtain ⟨u, s, w, ht, hu, hs, rfl⟩ := drainBytes_eq_some_iff.mp hdrain
          refine ⟨run, u, s, w, rfl, ht, hu, hs, Eq.symm ?_⟩
          simpa [deleteInParagraph, h, h ▸ hrun, hout, hdrain] using hok
  · rintro ⟨run, u, s, w, hrun, ht, hu, hs, rfl⟩
    have hdrain : drainBytes run.text start.byteOffset stop.byteOffset = some (u ++ w) :=
      drainBytes_eq_some_iff.mpr ⟨u, s, w, ht, hu, hs, rfl⟩
    have hin : ¬ (start.byteOffset > stop.byteOffset ∨ stop.byteOffset > utf8Len run.text) := by
      rw [ht, String.utf8Len_append, String.utf8Len_append]
      omega
    simp [deleteInParagraph, h, h ▸ hrun, hin, hdrain]

/-- Deleting from one run to a later one: the runs from one to the other become one run. -/
lemma deleteInParagraph_across {start stop : Cursor} {p p' : Paragraph}
    (hne : start.runIdx ≠ stop.runIdx) (hok : (deleteInParagraph start stop).run p = .ok () p') :
    ∃ first last kept cut dropped rest, start.runIdx < stop.runIdx ∧
      p.runs[start.runIdx]? = some first ∧ p.runs[stop.runIdx]? = some last ∧
      first.text = kept ++ cut ∧ utf8Len kept = start.byteOffset ∧
      last.text = dropped ++ rest ∧ utf8Len dropped = stop.byteOffset ∧
      p' = p.withRuns (p.runs.take start.runIdx ++
        first.withText (kept ++ rest) :: p.runs.drop (stop.runIdx + 1)) := by
  cases hfirst : p.runs[start.runIdx]? with
  | none => simp [deleteInParagraph, hfirst] at hok
  | some first =>
    by_cases hgt : start.byteOffset > utf8Len first.text
    · simp [deleteInParagraph, hfirst, hne, hgt] at hok
    · cases hcut : splitAtByte first.text start.byteOffset with
      | none => simp [deleteInParagraph, hfirst, hne, hgt, hcut] at hok
      | some x =>
        obtain ⟨kept, cut⟩ := x
        obtain ⟨ht, hu⟩ := splitAtByte_eq_some hcut
        cases hlast : p.runs[stop.runIdx]? with
        | none => simp [deleteInParagraph, hfirst, hne, hgt, hcut, hlast] at hok
        | some last =>
          by_cases hgt' : stop.byteOffset > utf8Len last.text
          · simp [deleteInParagraph, hfirst, hne, hgt, hcut, hlast, hgt'] at hok
          · cases hrest : splitAtByte last.text stop.byteOffset with
            | none => simp [deleteInParagraph, hfirst, hne, hgt, hcut, hlast, hgt', hrest] at hok
            | some y =>
              obtain ⟨dropped, rest⟩ := y
              obtain ⟨ht', hu'⟩ := splitAtByte_eq_some hrest
              by_cases hlt : stop.runIdx < start.runIdx
              · simp [deleteInParagraph, hfirst, hne, hgt, hcut, hlast, hgt', hrest, hlt] at hok
              · refine ⟨first, last, kept, cut, dropped, rest, by omega, rfl, rfl, ht, hu, ht', hu',
                  Eq.symm ?_⟩
                obtain ⟨hi, -⟩ := List.getElem?_eq_some_iff.mp hfirst
                have hdrained := take_drop_modify hi (show start.runIdx ≤ stop.runIdx by omega)
                  (first.withText kept) fun run => run.withText (run.text ++ rest)
                simp only [Run.text_withText, Run.withText_withText] at hdrained
                rw [← hdrained]
                simpa [deleteInParagraph, hfirst, hne, hgt, hcut, hlast, hgt', hrest, hlt] using hok

/-! ### Reading -/

lemma extractText_eq_ok_iff {start stop : Cursor} {t : Text} {d d' : Document} :
    (extractText start stop).run d = .ok t d' ↔ start.sameParagraph stop = true ∧
      (∃ p, paragraphRef d.blocks start = some p ∧ extractFromParagraph start stop p = .ok t) ∧
      d = d' := by
  by_cases hsame : start.sameParagraph stop = true
  · cases hp : paragraphRef d.blocks start with
    | none => simp [extractText, hsame, hp]
    | some p =>
      cases ht : extractFromParagraph start stop p with
      | error e => simp [extractText, hsame, hp, ht]
      | ok t => simp [extractText, hsame, hp, ht]
  · simp [extractText, hsame]

/-- Reading inside one run. -/
lemma extractFromParagraph_eq_ok_iff {start stop : Cursor} {p : Paragraph} {t : Text}
    (h : start.runIdx = stop.runIdx) : extractFromParagraph start stop p = .ok t ↔
      ∃ run u w, p.runs[start.runIdx]? = some run ∧ run.text = u ++ t ++ w ∧
        utf8Len u = start.byteOffset ∧ start.byteOffset + utf8Len t = stop.byteOffset := by
  cases hrun : p.runs[start.runIdx]? with
  | none => simp [extractFromParagraph, h, h ▸ hrun]
  | some run =>
    have hslice := sliceBytes_eq_some_iff (s := t) (t := run.text) (n := start.byteOffset)
      (m := stop.byteOffset)
    cases hs : sliceBytes run.text start.byteOffset stop.byteOffset with
    | none =>
      rw [hs] at hslice
      simpa [extractFromParagraph, h, h ▸ hrun, hs] using hslice
    | some t' =>
      rw [hs] at hslice
      simpa [extractFromParagraph, h, h ▸ hrun, hs] using hslice

lemma applyDeleteRange_eq_ok_iff {start stop : Cursor} {d d' : Document} :
    (applyDeleteRange start stop).run d = .ok () d' ↔ start.sameParagraph stop = true ∧
      ∃ p p', paragraphRef d.blocks start = some p ∧
        (deleteInParagraph start stop).run p = .ok () p' ∧ (paragraphMut start).set p' d = d' := by
  by_cases hsame : start.sameParagraph stop = true
  · have hrun : applyDeleteRange start stop =
        (paragraphMut start).borrow .editOutOfBounds (deleteInParagraph start stop) := by
      simp [applyDeleteRange, hsame]
    rw [hrun, Focus.borrow_eq_ok]
    simp [get?_paragraphMut, hsame]
  · simp [applyDeleteRange, hsame]

lemma applyInsertText_eq_ok_iff {pos : Cursor} {text : Text} {d d' : Document} :
    (applyInsertText pos text).run d = .ok () d' ↔
      ∃ p p', paragraphRef d.blocks pos = some p ∧
        (insertTextInParagraph pos text).run p = .ok () p' ∧ (paragraphMut pos).set p' d = d' := by
  rw [applyInsertText, Focus.borrow_eq_ok]
  simp [get?_paragraphMut]

/-! ### The two commands -/

lemma insertText_eq_ok_iff {pos : Cursor} {text : Text} {j : EditCommand} {d d' : Document} :
    (applyCommand (.insertText pos text)).run d = .ok j d' ↔
      .deleteRange ⟨pos, { pos with byteOffset := pos.byteOffset + utf8Len text }⟩ = j ∧
      ∃ p p', paragraphRef d.blocks pos = some p ∧
        (insertTextInParagraph pos text).run p = .ok () p' ∧ (paragraphMut pos).set p' d = d' := by
  rw [applyCommand, Run.bind_eq_ok, ← applyInsertText_eq_ok_iff]
  constructor
  · rintro ⟨_, u, happ, hret⟩
    obtain ⟨rfl, rfl⟩ : _ = j ∧ u = d' := by simpa using hret
    exact ⟨rfl, happ⟩
  · rintro ⟨rfl, happ⟩
    exact ⟨(), d', happ, rfl⟩

lemma deleteRange_eq_ok_iff {range : Selection} {start stop : Cursor} {j : EditCommand}
    {d d' : Document} (hnorm : range.normalized = (start, stop)) :
    (applyCommand (.deleteRange range)).run d = .ok j d' ↔ start.sameParagraph stop = true ∧
      ∃ p p' t, paragraphRef d.blocks start = some p ∧ extractFromParagraph start stop p = .ok t ∧
        .insertText start t = j ∧ (deleteInParagraph start stop).run p = .ok () p' ∧
        (paragraphMut start).set p' d = d' := by
  rw [applyCommand, hnorm]
  simp only [Run.bind_eq_ok, extractText_eq_ok_iff]
  constructor
  · rintro ⟨t, u, ⟨hsame, ⟨p, hp, ht⟩, rfl⟩, _, u', happ, hret⟩
    obtain ⟨-, q, p', hq, hdel, rfl⟩ := applyDeleteRange_eq_ok_iff.mp happ
    obtain rfl : p = q := by
      rw [hp] at hq
      exact Option.some.inj hq
    obtain ⟨rfl, rfl⟩ : .insertText start t = j ∧ (paragraphMut start).set p' d = d' := by
      simpa using hret
    exact ⟨hsame, p, p', t, hp, ht, rfl, hdel, rfl⟩
  · rintro ⟨hsame, p, p', t, hp, ht, rfl, hdel, rfl⟩
    have happ := applyDeleteRange_eq_ok_iff.mpr ⟨hsame, p, p', hp, hdel, rfl⟩
    exact ⟨t, d, ⟨hsame, ⟨p, hp, ht⟩, rfl⟩, (), _, happ, rfl⟩

end Orchid.Document
