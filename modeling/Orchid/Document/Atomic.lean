import Orchid.Document.StyleSelection

/-!
# Edits that leave the state alone when they fail

The rules for such edits, when deleting a range is one, and the commands that check before they
change anything.
-/

namespace Orchid.Document

open Lib
open String (utf8Len)

/-! ### Edits that leave the state alone when they fail -/

variable {σ α β : Type} {s : σ}

/-- If the edit fails, then with an error, and the state is as before. -/
def Atomic (x : Edit σ α) (s : σ) : Prop :=
  ∀ e t, x.run s = .error e t → t = s ∧ e ≠ .panic

namespace Atomic

lemma of_ok {x : Edit σ α} {a : α} {t : σ} (h : x.run s = .ok a t) : Atomic x s := by
  intro e t' herr
  rw [h] at herr
  cases herr

lemma throw : Atomic (throw .editOutOfBounds : Edit σ α) s := by
  rintro _ _ ⟨⟩
  exact ⟨rfl, Fault.noConfusion⟩

lemma ite {c : Prop} [Decidable c] {x y : Edit σ α} (hx : c → Atomic x s) (hy : ¬ c → Atomic y s) :
    Atomic (if c then x else y) s := by
  by_cases h : c
  · rw [if_pos h]
    exact hx h
  · rw [if_neg h]
    exact hy h

lemma read {f : σ → Edit σ α} (h : Atomic (f s) s) : Atomic (get >>= f) s := h

/-- A later part that never fails changes nothing. -/
lemma bind_ok_iff {x : Edit σ α} {f : α → Edit σ β} (hf : ∀ a t, ∃ b u, (f a).run t = .ok b u) :
    Atomic (x >>= f) s ↔ Atomic x s := by
  refine forall_congr' fun e => forall_congr' fun t => ?_
  rw [EStateM.run_bind]
  cases hx : x.run s with
  | error e' t' => simp
  | ok a t' =>
    obtain ⟨b, u, hb⟩ := hf a t'
    simp [hb]

/-- An edit of a part of the state is atomic exactly if it is so on the part. -/
lemma borrow_iff {f : Focus σ β} {x : Edit β α} :
    Atomic (f.borrow .editOutOfBounds x) s ↔ ∀ b, f.get? s = some b → Atomic x b := by
  cases hget : f.get? s with
  | none =>
    refine iff_of_true (fun e t h => ?_) (by simp)
    rw [Focus.run_borrow, hget] at h
    cases h
    exact ⟨rfl, Fault.noConfusion⟩
  | some b =>
    have hiff : Atomic (f.borrow .editOutOfBounds x) s ↔ Atomic x b := by
      constructor
      · intro h e b' herr
        have hrun : (f.borrow .editOutOfBounds x).run s = .error e (f.set b' s) := by
          rw [Focus.run_borrow, hget]
          simp only [herr]
        obtain ⟨hset, he⟩ := h e _ hrun
        have hback := f.get?_set b' hget
        rw [hset, hget] at hback
        exact ⟨(Option.some.inj hback).symm, he⟩
      · intro h e t herr
        rw [Focus.run_borrow, hget] at herr
        cases hx : x.run b with
        | ok a b' =>
          simp only [hx] at herr
          cases herr
        | error e' b' =>
          simp only [hx] at herr
          cases herr
          obtain ⟨rfl, he⟩ := h _ _ hx
          exact ⟨f.set_get hget, he⟩
    rw [hiff]
    simp

end Atomic

/-! ### Commands that may fail half done -/

/-- A range of one paragraph that a deletion accepts, or refuses before it has changed anything.
Inside one run it is a range of characters; from one run to a later one both ends are character
boundaries of their runs; with the end in an earlier run the start must lie beyond the text of its
run, or at its end with the end of the range beyond the text of its own. -/
def RangeSafe (p : Paragraph) (start stop : Cursor) : Prop :=
  ∀ r ∈ p.runs[start.runIdx]?,
    if start.runIdx = stop.runIdx then
      ∃ u m v, r.text = u ++ m ++ v ∧ utf8Len u = start.byteOffset ∧
        utf8Len u + utf8Len m = stop.byteOffset
    else if start.runIdx < stop.runIdx then
      IsCharBoundary r.text start.byteOffset ∧
        ∀ r' ∈ p.runs[stop.runIdx]?, IsCharBoundary r'.text stop.byteOffset
    else
      utf8Len r.text < start.byteOffset ∨ (start.byteOffset = utf8Len r.text ∧
        ∀ r' ∈ p.runs[stop.runIdx]?, utf8Len r'.text < stop.byteOffset)

section Deletion

variable {p : Paragraph} {start stop : Cursor} {r : Run}

lemma splitAtByte_eq_none_iff {t : Text} {n : ℕ} :
    splitAtByte t n = none ↔ ¬ IsCharBoundary t n := by
  cases h : splitAtByte t n with
  | none =>
    refine iff_of_true rfl ?_
    rintro ⟨u, v, rfl, rfl⟩
    rw [splitAtByte_append] at h
    cases h
  | some x =>
    obtain ⟨htext, hbyte⟩ := splitAtByte_eq_some (u := x.1) (v := x.2) h
    exact iff_of_false (by simp) fun hnot => hnot ⟨x.1, x.2, htext, hbyte⟩

/-- One step of reading the text between two cursors. -/
def extractStep (start stop : Cursor) (p : Paragraph) (out : Text) (idx : ℕ) : Except Fault Text :=
  match p.runs[idx]? with
  | none => .error .editOutOfBounds
  | some run => do return out ++ (← extractFromRun start stop idx run)

/-- Reading the runs behind the one the range starts in. -/
lemma extract_later {n k : ℕ} (out : Text) (hk : start.runIdx < k) (hn : k + n = stop.runIdx) :
    (p.runs[stop.runIdx]? = none →
        (List.range' k (n + 1)).foldlM (extractStep start stop p) out = .error .editOutOfBounds) ∧
      ∀ r', p.runs[stop.runIdx]? = some r' →
        (¬ IsCharBoundary r'.text stop.byteOffset →
          (List.range' k (n + 1)).foldlM (extractStep start stop p) out = .error .panic) ∧
        (IsCharBoundary r'.text stop.byteOffset →
          ∃ t, (List.range' k (n + 1)).foldlM (extractStep start stop p) out = .ok t) := by
  induction n generalizing k out with
  | zero =>
    obtain rfl : k = stop.runIdx := hn
    refine ⟨fun hnone => ?_, fun r' hr' => ⟨fun hnot => ?_, fun hin => ?_⟩⟩
    · simp [extractStep, hnone, bind, Except.bind]
    · have hsplit := splitAtByte_eq_none_iff.2 hnot
      simp [extractStep, hr', extractFromRun, hk.ne', hsplit, bind, Except.bind]
    · obtain ⟨u, v, htext, hbyte⟩ := hin
      have hsplit : splitAtByte r'.text stop.byteOffset = some (u, v) := by
        rw [htext, ← hbyte, splitAtByte_append]
      exact ⟨out ++ u, by
        simp [extractStep, hr', extractFromRun, hk.ne', hsplit, bind, Except.bind, pure,
          Except.pure]⟩
  | succ n ih =>
    have hlt : k < stop.runIdx := by omega
    cases hrun : p.runs[k]? with
    | none =>
      have hnone : p.runs[stop.runIdx]? = none := by
        rw [List.getElem?_eq_none_iff] at hrun ⊢
        omega
      refine ⟨fun _ => ?_, fun r' hr' => by rw [hnone] at hr'; cases hr'⟩
      rw [List.range'_succ]
      simp [extractStep, hrun, bind, Except.bind]
    | some run =>
      have hstep : extractStep start stop p out k = .ok (out ++ run.text) := by
        simp [extractStep, hrun, extractFromRun, hk.ne', hlt.ne, bind, Except.bind, pure,
          Except.pure]
      have hih := ih (out ++ run.text) (Nat.lt_succ_of_lt hk) (by omega)
      have hfold : (List.range' k (n + 1 + 1)).foldlM (extractStep start stop p) out =
          (List.range' (k + 1) (n + 1)).foldlM (extractStep start stop p) (out ++ run.text) := by
        rw [List.range'_succ, List.foldlM_cons, hstep]
        rfl
      rw [hfold]
      exact hih

/-- Whether a deletion is refused before it has changed anything, or goes through. -/
def DeletesOrRefuses (p : Paragraph) (start stop : Cursor) : Prop :=
  match extractFromParagraph start stop p with
  | .error e => e ≠ .panic
  | .ok _ => Atomic (deleteInParagraph start stop) p

lemma deletesOrRefuses_panic (h : extractFromParagraph start stop p = .error .panic) :
    ¬ DeletesOrRefuses p start stop := by
  rw [DeletesOrRefuses, h]
  exact fun hne => hne rfl

lemma deletesOrRefuses_refused (h : extractFromParagraph start stop p = .error .editOutOfBounds) :
    DeletesOrRefuses p start stop := by
  rw [DeletesOrRefuses, h]
  exact Fault.noConfusion

lemma deletesOrRefuses_ok_iff {t : Text} (h : extractFromParagraph start stop p = .ok t) :
    DeletesOrRefuses p start stop ↔ Atomic (deleteInParagraph start stop) p := by
  rw [DeletesOrRefuses, h]

/-- A deletion from one run to a later one goes through. -/
lemma atomic_delete_later {r' : Run} (hr : p.runs[start.runIdx]? = some r)
    (hr' : p.runs[stop.runIdx]? = some r') (hlt : start.runIdx < stop.runIdx)
    (hstart : IsCharBoundary r.text start.byteOffset)
    (hstop : IsCharBoundary r'.text stop.byteOffset) : Atomic (deleteInParagraph start stop) p := by
  obtain ⟨u, v, htext, hbyte⟩ := hstart
  obtain ⟨u', v', htext', hbyte'⟩ := hstop
  have hsplit : splitAtByte r.text start.byteOffset = some (u, v) := by
    rw [htext, ← hbyte, splitAtByte_append]
  have hsplit' : splitAtByte r'.text stop.byteOffset = some (u', v') := by
    rw [htext', ← hbyte', splitAtByte_append]
  have hle : ¬ start.byteOffset > utf8Len r.text :=
    Nat.not_lt.2 (IsCharBoundary.le ⟨u, v, htext, hbyte⟩)
  have hle' : ¬ stop.byteOffset > utf8Len r'.text :=
    Nat.not_lt.2 (IsCharBoundary.le ⟨u', v', htext', hbyte'⟩)
  have hset : (p.runs.set start.runIdx (r.withText u))[stop.runIdx]? = some r' := by
    rw [List.getElem?_set_ne hlt.ne, hr']
  intro e t herr
  rw [deleteInParagraph] at herr
  simp only [EStateM.run_bind, EStateM.run_get, hr, hlt.ne, if_false, hle, hsplit,
    EStateM.run_set, hset, hle', hsplit', Nat.not_lt.2 hlt.le] at herr
  cases herr

lemma deletesOrRefuses_later_iff (hr : p.runs[start.runIdx]? = some r)
    (hlt : start.runIdx < stop.runIdx) :
    DeletesOrRefuses p start stop ↔ IsCharBoundary r.text start.byteOffset ∧
      ∀ r' ∈ p.runs[stop.runIdx]?, IsCharBoundary r'.text stop.byteOffset := by
  obtain ⟨n, hn⟩ : ∃ n, stop.runIdx = start.runIdx + 1 + n :=
    ⟨stop.runIdx - start.runIdx - 1, by omega⟩
  have hextract : extractFromParagraph start stop p =
      (List.range' start.runIdx (n + 1 + 1)).foldlM (extractStep start stop p) [] := by
    have hcount : stop.runIdx + 1 - start.runIdx = n + 1 + 1 := by omega
    rw [extractFromParagraph, if_neg hlt.ne, hcount]
    rfl
  by_cases hstart : IsCharBoundary r.text start.byteOffset
  · obtain ⟨u, v, htext, hbyte⟩ := hstart
    have hsplit : splitAtByte r.text start.byteOffset = some (u, v) := by
      rw [htext, ← hbyte, splitAtByte_append]
    have hstep : extractStep start stop p [] start.runIdx = .ok v := by
      simp [extractStep, hr, extractFromRun, hsplit, bind, Except.bind, pure, Except.pure]
    have hfold : extractFromParagraph start stop p =
        (List.range' (start.runIdx + 1) (n + 1)).foldlM (extractStep start stop p) v := by
      rw [hextract, List.range'_succ, List.foldlM_cons, hstep]
      rfl
    obtain ⟨hnone, hsome⟩ := @extract_later p start stop n (start.runIdx + 1) v (Nat.lt_succ_self _)
      hn.symm
    cases hr' : p.runs[stop.runIdx]? with
    | none =>
      refine iff_of_true (deletesOrRefuses_refused (hfold.trans (hnone hr'))) ⟨?_, by simp⟩
      exact ⟨u, v, htext, hbyte⟩
    | some r' =>
      obtain ⟨hpanic, hok⟩ := hsome r' hr'
      by_cases hstop : IsCharBoundary r'.text stop.byteOffset
      · obtain ⟨t, ht⟩ := hok hstop
        rw [deletesOrRefuses_ok_iff (hfold.trans ht)]
        refine iff_of_true (atomic_delete_later hr hr' hlt ⟨u, v, htext, hbyte⟩ hstop) ?_
        refine ⟨⟨u, v, htext, hbyte⟩, ?_⟩
        rintro _ ⟨⟩
        exact hstop
      · refine iff_of_false (deletesOrRefuses_panic (hfold.trans (hpanic hstop))) fun h => ?_
        exact hstop (h.2 r' rfl)
  · refine iff_of_false (deletesOrRefuses_panic ?_) fun h => hstart h.1
    have hsplit := splitAtByte_eq_none_iff.2 hstart
    rw [hextract, List.range'_succ, List.foldlM_cons]
    simp [extractStep, hr, extractFromRun, hsplit, bind, Except.bind]

/-- Inside one run. -/
lemma deletesOrRefuses_same_iff (hr : p.runs[start.runIdx]? = some r)
    (hsame : start.runIdx = stop.runIdx) :
    DeletesOrRefuses p start stop ↔ ∃ u m v, r.text = u ++ m ++ v ∧
      utf8Len u = start.byteOffset ∧ utf8Len u + utf8Len m = stop.byteOffset := by
  cases hslice : sliceBytes r.text start.byteOffset stop.byteOffset with
  | none =>
    have hextract : extractFromParagraph start stop p = .error .panic := by
      rw [extractFromParagraph, if_pos hsame, hr]
      simp only [hslice]
    refine iff_of_false (deletesOrRefuses_panic hextract) ?_
    rintro ⟨u, m, v, htext, hu, hm⟩
    have hsome := sliceBytes_eq_some_iff.2 ⟨u, v, htext, hu, hu ▸ hm⟩
    rw [hslice] at hsome
    cases hsome
  | some m =>
    have hextract : extractFromParagraph start stop p = .ok m := by
      rw [extractFromParagraph, if_pos hsame, hr]
      simp only [hslice]
    obtain ⟨u, v, htext, hu, hm⟩ := sliceBytes_eq_some_iff.1 hslice
    rw [deletesOrRefuses_ok_iff hextract]
    refine iff_of_true (fun e t herr => ?_) ⟨u, m, v, htext, hu, hu.symm ▸ hm⟩
    have hdrain := drainBytes_eq_some_iff.2 ⟨u, m, v, htext, hu, hm, rfl⟩
    have hle : ¬ (start.byteOffset > stop.byteOffset ∨ stop.byteOffset > utf8Len r.text) := by
      rw [htext, String.utf8Len_append, String.utf8Len_append]
      omega
    rw [deleteInParagraph] at herr
    simp only [EStateM.run_bind, EStateM.run_get, hr, hsame.symm, if_true, hle, if_false,
      hdrain] at herr
    cases herr

lemma extract_earlier (hlt : stop.runIdx < start.runIdx) :
    extractFromParagraph start stop p = .ok [] := by
  have hcount : stop.runIdx + 1 - start.runIdx = 0 := by omega
  rw [extractFromParagraph, if_neg hlt.ne', hcount]
  rfl

/-- With the end in an earlier run. -/
lemma deletesOrRefuses_earlier_iff (hr : p.runs[start.runIdx]? = some r)
    (hlt : stop.runIdx < start.runIdx) :
    DeletesOrRefuses p start stop ↔ utf8Len r.text < start.byteOffset ∨
      (start.byteOffset = utf8Len r.text ∧
        ∀ r' ∈ p.runs[stop.runIdx]?, utf8Len r'.text < stop.byteOffset) := by
  have hlen := (List.getElem?_eq_some_iff.1 hr).1
  have hr' : p.runs[stop.runIdx]? = some p.runs[stop.runIdx] := List.getElem?_eq_getElem _
  rw [deletesOrRefuses_ok_iff (extract_earlier hlt)]
  by_cases hbeyond : start.byteOffset > utf8Len r.text
  · refine iff_of_true (fun e t herr => ?_) (.inl hbeyond)
    rw [deleteInParagraph] at herr
    simp only [EStateM.run_bind, EStateM.run_get, hr, hlt.ne', if_false, hbeyond, if_true] at herr
    exact Atomic.throw e t herr
  · cases hsplit : splitAtByte r.text start.byteOffset with
    | none =>
      have hnot := splitAtByte_eq_none_iff.1 hsplit
      refine iff_of_false (fun h => ?_) ?_
      · refine (h .panic p ?_).2 rfl
        rw [deleteInParagraph]
        simp only [EStateM.run_bind, EStateM.run_get, hr, hlt.ne', if_false, hbeyond, hsplit]
        rfl
      · rintro (h | ⟨h, -⟩)
        · exact hbeyond h
        · exact hnot ⟨r.text, [], by simp, h.symm⟩
    | some x =>
      obtain ⟨u, v⟩ := x
      obtain ⟨htext, hbyte⟩ := splitAtByte_eq_some hsplit
      have hset : (p.runs.set start.runIdx (r.withText u))[stop.runIdx]? =
          some p.runs[stop.runIdx] := by
        rw [List.getElem?_set_ne hlt.ne', hr']
      by_cases hstop : stop.byteOffset > utf8Len p.runs[stop.runIdx].text
      · have hrun : (deleteInParagraph start stop).run p = .error .editOutOfBounds
            (p.withRuns (p.runs.set start.runIdx (r.withText u))) := by
          rw [deleteInParagraph]
          simp only [EStateM.run_bind, EStateM.run_get, hr, hlt.ne', if_false, hbeyond, hsplit,
            EStateM.run_set, hset, hstop, if_true]
          rfl
        constructor
        · intro h
          have hsame := congrArg (fun p => p.runs[start.runIdx]?) (h _ _ hrun).1
          simp only [Paragraph.runs_withRuns, List.getElem?_set_self hlen, hr] at hsame
          have hu : u = r.text := congrArg Run.text (Option.some.inj hsame)
          refine .inr ⟨by rw [← hbyte, hu], fun r'' hr'' => ?_⟩
          rw [hr'] at hr''
          obtain rfl := Option.some.inj hr''
          exact hstop
        · rintro (h | ⟨h, -⟩) e t herr
          · exact absurd h hbeyond
          · obtain rfl : v = [] := by
              rw [htext, String.utf8Len_append] at h
              exact String.utf8Len_eq_zero.1 (by omega)
            have hback : p.runs.set start.runIdx (r.withText u) = p.runs := by
              have hu : r.withText u = r := by rw [← List.append_nil u, ← htext, Run.withText_text]
              rw [hu, ← (List.getElem?_eq_some_iff.1 hr).2, List.set_getElem_self]
            rw [hrun, hback] at herr
            cases herr
            exact ⟨rfl, Fault.noConfusion⟩
      · have hrun : ∃ p', (deleteInParagraph start stop).run p = .error .panic p' := by
          rw [deleteInParagraph]
          simp only [EStateM.run_bind, EStateM.run_get, hr, hlt.ne', if_false, hbeyond, hsplit,
            EStateM.run_set, hset, hstop, hlt, if_true]
          cases splitAtByte p.runs[stop.runIdx].text stop.byteOffset with
          | none => exact ⟨_, rfl⟩
          | some x => exact ⟨_, rfl⟩
        obtain ⟨p', hrun⟩ := hrun
        refine iff_of_false (fun h => (h _ _ hrun).2 rfl) ?_
        rintro (h | ⟨-, h⟩)
        · exact hbeyond h
        · exact hstop (h _ hr')

lemma deletesOrRefuses_iff : DeletesOrRefuses p start stop ↔ RangeSafe p start stop := by
  cases hr : p.runs[start.runIdx]? with
  | none =>
    have hsafe : RangeSafe p start stop := by simp [RangeSafe, hr]
    refine iff_of_true ?_ hsafe
    rcases Nat.lt_trichotomy start.runIdx stop.runIdx with hlt | hsame | hgt
    · obtain ⟨n, hn⟩ : ∃ n, stop.runIdx + 1 - start.runIdx = n + 1 :=
        ⟨stop.runIdx - start.runIdx, by omega⟩
      refine deletesOrRefuses_refused ?_
      rw [extractFromParagraph, if_neg hlt.ne, hn, List.range'_succ, List.foldlM_cons]
      simp [hr, bind, Except.bind]
    · refine deletesOrRefuses_refused ?_
      rw [extractFromParagraph, if_pos hsame, hr]
    · rw [deletesOrRefuses_ok_iff (extract_earlier hgt)]
      intro e t herr
      rw [deleteInParagraph] at herr
      simp only [EStateM.run_bind, EStateM.run_get, hr] at herr
      exact Atomic.throw e t herr
  | some r =>
    have hsafe : RangeSafe p start stop ↔
        if start.runIdx = stop.runIdx then
          ∃ u m v, r.text = u ++ m ++ v ∧ utf8Len u = start.byteOffset ∧
            utf8Len u + utf8Len m = stop.byteOffset
        else if start.runIdx < stop.runIdx then
          IsCharBoundary r.text start.byteOffset ∧
            ∀ r' ∈ p.runs[stop.runIdx]?, IsCharBoundary r'.text stop.byteOffset
        else
          utf8Len r.text < start.byteOffset ∨ (start.byteOffset = utf8Len r.text ∧
            ∀ r' ∈ p.runs[stop.runIdx]?, utf8Len r'.text < stop.byteOffset) := by
      simp [RangeSafe, hr]
    rw [hsafe]
    rcases Nat.lt_trichotomy start.runIdx stop.runIdx with hlt | hsame | hgt
    · rw [if_neg hlt.ne, if_pos hlt, deletesOrRefuses_later_iff hr hlt]
    · rw [if_pos hsame, deletesOrRefuses_same_iff hr hsame]
    · rw [if_neg hgt.ne', if_neg hgt.not_gt, deletesOrRefuses_earlier_iff hr hgt]

end Deletion

/-! ### Commands that check before they change -/

lemma atomic_deleteTableRow (i rowIdx : ℕ) (t : Table) : Atomic (deleteTableRow i rowIdx) t := by
  rw [deleteTableRow]
  refine .read ?_
  split
  · exact .throw
  · exact .ite (fun _ => .throw) fun _ => .of_ok rfl

lemma atomic_insertTableColumn (i atCol : ℕ) (t : Table) :
    Atomic (insertTableColumn i atCol) t :=
  .read (.ite (fun _ => .throw) fun _ => .of_ok rfl)

lemma atomic_deleteTableColumn (i colIdx : ℕ) (t : Table) :
    Atomic (deleteTableColumn i colIdx) t :=
  .read (.ite (fun _ => .throw) fun _ => .of_ok rfl)

lemma atomic_restoreTableColumn (i atCol : ℕ) (cells : List (Option TableCell))
    (widthTwips : Option U32) (t : Table) :
    Atomic (restoreTableColumn i atCol cells widthTwips) t :=
  .read (.ite (fun _ => .throw) fun _ => .of_ok rfl)

lemma atomic_removeCellImage (i row col imageIdx : ℕ) (cell : TableCell) :
    Atomic (removeCellImage i row col imageIdx) cell := by
  rw [removeCellImage]
  refine .read ?_
  split
  · exact .throw
  · exact .of_ok rfl

lemma atomic_removeBlock (i : ℕ) (blocks : List Block) : Atomic (removeBlock i) blocks := by
  rw [removeBlock]
  refine .read ?_
  split
  · exact .throw
  · exact .of_ok rfl

lemma atomic_replaceBlock (i : ℕ) (previous : Block) (blocks : List Block) :
    Atomic (replaceBlock i previous) blocks := by
  refine .read (.ite (fun _ => .throw) fun _ => ?_)
  split
  · exact .of_ok rfl
  · exact .of_ok rfl

lemma atomic_removeFirst {α : Type} (p : α → Bool) (l : List α) : Atomic (removeFirst p) l := by
  rw [removeFirst]
  refine .read ?_
  split
  · exact .throw
  · exact .of_ok rfl

lemma atomic_updateCommentText (id : U32) (text : Text) (comments : List DocComment) :
    Atomic (updateCommentText id text) comments := by
  rw [updateCommentText]
  refine .read ?_
  dsimp only
  split
  · exact .throw
  · exact .of_ok rfl

end Orchid.Document
