import Orchid.Document.CursorOrder
import Orchid.Document.ParagraphEdit

/-!
# A paragraph cut at a cursor

The runs in front of a position and those behind it, as the edits of paragraphs cut them, and the
text they show.
-/

namespace Orchid.Document

open Lib
open String (utf8Len)

/-- The text of runs. -/
def runsText (runs : List Run) : Text := runs.flatMap Run.text

@[simp] lemma runsText_nil : runsText [] = [] := rfl

@[simp] lemma runsText_cons (run : Run) (runs : List Run) :
    runsText (run :: runs) = run.text ++ runsText runs := rfl

@[simp] lemma runsText_append (runs runs' : List Run) :
    runsText (runs ++ runs') = runsText runs ++ runsText runs' := List.flatMap_append

lemma plainText_eq (p : Paragraph) : p.plainText = runsText p.runs := rfl

/-- The runs that show some text. -/
def shownRuns (runs : List Run) : List Run := runs.filter fun run => !run.text.isEmpty

@[simp] lemma runsText_shownRuns (runs : List Run) : runsText (shownRuns runs) = runsText runs := by
  induction runs with
  | nil => rfl
  | cons run runs ih =>
    cases htext : run.text with
    | nil => simpa [shownRuns, List.filter_cons, htext] using ih
    | cons c t => simpa [shownRuns, List.filter_cons, htext] using ih

lemma shownRuns_append (runs runs' : List Run) :
    shownRuns (runs ++ runs') = shownRuns runs ++ shownRuns runs' := List.filter_append _ _

lemma shownRuns_eq_self {runs : List Run} (h : ∀ run ∈ runs, run.text ≠ []) :
    shownRuns runs = runs :=
  List.filter_eq_self.2 fun run hrun => by simpa using h run hrun

lemma shownRuns_eq_nil_iff {runs : List Run} : shownRuns runs = [] ↔ runsText runs = [] := by
  rw [shownRuns, List.filter_eq_nil_iff, runsText, List.flatMap_eq_nil_iff]
  simp

/-- The runs with a field. -/
def fieldRuns (runs : List Run) : List Run := runs.filter fun r => r.field.isSome

lemma fieldRuns_append (runs runs' : List Run) :
    fieldRuns (runs ++ runs') = fieldRuns runs ++ fieldRuns runs' := List.filter_append _ _

/-- The style, style id and hyperlink of every character. -/
def charStyles (runs : List Run) : List (Char × RunStyle × Option Text × Option Hyperlink) :=
  runs.flatMap fun r => r.text.map fun c => (c, r.style, r.styleId, r.hyperlink)

lemma charStyles_append (runs runs' : List Run) :
    charStyles (runs ++ runs') = charStyles runs ++ charStyles runs' := List.flatMap_append

/-! ### Cuts -/

/-- Part of a run; it has no field. -/
def Run.part (run : Run) (text : Text) : Run := { run with text, field := none }

/-- A position of a paragraph with the runs in front of it and those behind it; the run that holds
the position is cut. -/
inductive Paragraph.Cut (p : Paragraph) (run byte : ℕ) : List Run → List Run → Prop where
  | empty (hruns : p.runs = []) (hrun : run = 0) (hbyte : byte = 0) : Cut p run byte [] []
  | inside {pre post : List Run} {r : Run} {u v : Text} (hruns : p.runs = pre ++ r :: post)
      (hrun : pre.length = run) (htext : r.text = u ++ v) (hbyte : utf8Len u = byte) :
      Cut p run byte (pre ++ [r.part u]) (r.part v :: post)

variable {p q : Paragraph} {c start stop : Cursor} {run byte : ℕ}
  {front back front' back' : List Run}

lemma Paragraph.HasPosition.cut (h : p.HasPosition run byte) :
    ∃ front back, p.Cut run byte front back := by
  obtain ⟨hruns, hrun, hbyte⟩ | ⟨r, hr, u, v, htext, hbyte⟩ := h
  · exact ⟨[], [], .empty hruns hrun hbyte⟩
  · obtain ⟨pre, post, hruns, hlen⟩ := exists_append_of_getElem? hr
    exact ⟨_, _, .inside hruns hlen htext hbyte⟩

lemma cutAt_eq_ok {r : Run} {u v : Text} (h : r.text = u ++ v) :
    r.cutAt (utf8Len u) = .ok (r.part u, r.part v) := by
  have hmin : min (utf8Len u) (utf8Len r.text) = utf8Len u := by
    rw [h, String.utf8Len_append]
    omega
  rw [Run.cutAt, hmin, h, splitAtByte_append]
  rfl

lemma Paragraph.Cut.text_eq (h : p.Cut run byte front back) :
    runsText front ++ runsText back = p.plainText := by
  cases h with
  | empty hruns => simp [plainText_eq, hruns]
  | inside hruns _ htext => simp [plainText_eq, hruns, htext, Run.part]

lemma Paragraph.Cut.charStyles_eq (h : p.Cut run byte front back) : charStyles front ++ charStyles back = charStyles p.runs := by
  cases h with
  | empty hruns => simp [charStyles, hruns]
  | inside hruns _ htext => simp [charStyles, hruns, htext, Run.part]

/-- The text of a paragraph in front of a position. -/
def Paragraph.textBefore (p : Paragraph) (run byte : ℕ) : Text :=
  match p.runs[run]? with
  | none => p.plainText
  | some r => runsText (p.runs.take run) ++ ((splitAtByte r.text byte).map Prod.fst).getD r.text

/-- The text of a paragraph behind a position. -/
def Paragraph.textBehind (p : Paragraph) (run byte : ℕ) : Text :=
  match p.runs[run]? with
  | none => []
  | some r => ((splitAtByte r.text byte).map Prod.snd).getD [] ++ runsText (p.runs.drop (run + 1))

lemma Paragraph.Cut.textBefore_eq (h : p.Cut run byte front back) :
    p.textBefore run byte = runsText front := by
  cases h with
  | empty hruns => simp [Paragraph.textBefore, plainText_eq, hruns]
  | inside hruns hrun htext hbyte =>
    subst hrun hbyte
    simp [Paragraph.textBefore, hruns, htext, splitAtByte_append, Run.part]

lemma Paragraph.Cut.textBehind_eq (h : p.Cut run byte front back) :
    p.textBehind run byte = runsText back := by
  cases h with
  | empty hruns => simp [Paragraph.textBehind, hruns]
  | inside hruns hrun htext hbyte =>
    subst hrun hbyte
    simp [Paragraph.textBehind, hruns, htext, splitAtByte_append, Run.part]

/-! ### Splits and joins -/

/-- Runs of a paragraph are never empty after an edit. -/
def orEmptyRun (runs : List Run) (run : Run) : List Run := if runs.isEmpty then [run] else runs

lemma runsText_orEmptyRun {runs : List Run} {run : Run} (h : run.text = []) :
    runsText (orEmptyRun runs run) = runsText runs := by
  cases runs <;> simp [orEmptyRun, h]

lemma splitRunsAt_eq_ok (h : p.Cut c.runIdx c.byteOffset front back) :
    splitRunsAt p c =
      .ok (orEmptyRun front {}, orEmptyRun back (continuing (orEmptyRun front {}))) := by
  cases h with
  | empty hruns =>
    simp [splitRunsAt, hruns, orEmptyRun, bind, Except.bind, pure, Except.pure]
  | inside hruns hrun htext hbyte =>
    simp [splitRunsAt, hruns, ← hrun, ← hbyte, cutAt_eq_ok htext, orEmptyRun, bind, Except.bind,
      pure, Except.pure]

/-- The front of one paragraph joined with the back of another one. -/
def joinedRuns (front back : List Run) : List Run := orEmptyRun (shownRuns (front ++ back)) {}

lemma joinRuns_eq_ok (h : p.Cut start.runIdx start.byteOffset front back')
    (h' : q.Cut stop.runIdx stop.byteOffset front' back) :
    joinRuns p q start stop = .ok (joinedRuns front back) := by
  cases h with
  | empty hruns =>
    cases h' with
    | empty hruns' =>
      simp [joinRuns, hruns, hruns', joinedRuns, shownRuns, orEmptyRun, bind, Except.bind, pure,
        Except.pure]
    | inside hruns' hrun' htext' hbyte' =>
      simp [joinRuns, hruns, hruns', ← hrun', ← hbyte', cutAt_eq_ok htext', joinedRuns, shownRuns,
        orEmptyRun, bind, Except.bind, pure, Except.pure]
  | inside hruns hrun htext hbyte =>
    cases h' with
    | empty hruns' =>
      simp [joinRuns, hruns, hruns', ← hrun, ← hbyte, cutAt_eq_ok htext, joinedRuns, shownRuns,
        orEmptyRun, bind, Except.bind, pure, Except.pure]
    | inside hruns' hrun' htext' hbyte' =>
      simp [joinRuns, hruns, hruns', ← hrun, ← hbyte, ← hrun', ← hbyte', cutAt_eq_ok htext,
        cutAt_eq_ok htext', joinedRuns, shownRuns, orEmptyRun, bind, Except.bind, pure, Except.pure]

lemma runsText_joinedRuns (front back : List Run) :
    runsText (joinedRuns front back) = runsText front ++ runsText back := by
  rw [joinedRuns, runsText_orEmptyRun rfl, runsText_shownRuns, runsText_append]

/-! ### The place of the cut in the joined runs -/

lemma offsetInRuns_append (runs runs' : List Run) {k : ℕ} (h : runs.length ≤ k) (byte : ℕ) :
    offsetInRuns (runs ++ runs') k byte =
      utf8Len (runsText runs) + offsetInRuns runs' (k - runs.length) byte := by
  induction runs generalizing k with
  | nil => simp
  | cons run runs ih =>
    obtain ⟨k, rfl⟩ := Nat.exists_eq_succ_of_ne_zero (Nat.ne_zero_of_lt (Nat.lt_of_lt_of_le
      (Nat.zero_lt_succ runs.length) h))
    rw [List.cons_append, offsetInRuns, ih (Nat.le_of_succ_le_succ h), runsText_cons,
      String.utf8Len_append, Nat.add_assoc]
    simp

/-- An empty run in place of none does not change offsets. -/
lemma offsetInRuns_orEmptyRun (runs : List Run) (k byte : ℕ) :
    offsetInRuns (orEmptyRun runs {}) k byte = offsetInRuns runs k byte := by
  cases runs with
  | nil => cases k <;> simp [orEmptyRun, offsetInRuns]
  | cons run runs => rfl

lemma offsetInRuns_zero (runs : List Run) : offsetInRuns runs 0 0 = 0 := by
  cases runs <;> simp [offsetInRuns]

lemma offsetInRuns_pos {runs : List Run} (hne : runs ≠ []) (h : ∀ r ∈ runs, r.text ≠ [])
    {k byte : ℕ} (hk : k = 0 → 0 < byte) : 0 < offsetInRuns runs k byte := by
  cases runs with
  | nil => exact absurd rfl hne
  | cons r runs =>
    have hr : 0 < utf8Len r.text :=
      Nat.pos_of_ne_zero (mt String.utf8Len_eq_zero.mp (h r List.mem_cons_self))
    cases k with
    | zero =>
      rw [offsetInRuns]
      exact lt_min (hk rfl) hr
    | succ k =>
      rw [offsetInRuns]
      omega

lemma text_ne_nil_of_mem_shownRuns {runs : List Run} {r : Run} (h : r ∈ shownRuns runs) :
    r.text ≠ [] := by
  simpa using (List.mem_filter.1 h).2

/-- The old run index and byte still point to the end of the front exactly if no run in front of it
was dropped, or nothing is behind it. -/
lemma offset_joinedRuns_iff (h : p.Cut run byte front back') :
    offsetInRuns (joinedRuns front back) run byte = utf8Len (runsText front) ↔
      (∀ r ∈ p.runs.take run, r.text ≠ []) ∨ runsText back = [] := by
  rw [joinedRuns, offsetInRuns_orEmptyRun, shownRuns_append]
  cases h with
  | empty hruns hrun hbyte =>
    subst hrun hbyte
    simp [offsetInRuns_zero]
  | @inside pre post r u v hruns hrun htext hbyte =>
    subst hrun hbyte
    have htake : p.runs.take pre.length = pre := by rw [hruns, List.take_left']; rfl
    rw [htake]
    have hfront : runsText (shownRuns (pre ++ [r.part u])) = runsText (pre ++ [r.part u]) :=
      runsText_shownRuns _
    by_cases hpre : ∀ r ∈ pre, r.text ≠ []
    · refine iff_of_true ?_ (.inl hpre)
      rw [shownRuns_append, shownRuns_eq_self hpre, List.append_assoc,
        offsetInRuns_append _ _ le_rfl, Nat.sub_self, runsText_append, String.utf8Len_append]
      congr 1
      cases u with
      | nil => simp [offsetInRuns_zero, Run.part]
      | cons a u => simp [shownRuns, Run.part, offsetInRuns]
    · have hshort : (shownRuns (pre ++ [r.part u])).length ≤ pre.length ∧
          ((shownRuns (pre ++ [r.part u])).length = pre.length → 0 < utf8Len u) := by
        have hdropped : (shownRuns pre).length < pre.length := by
          rw [shownRuns, List.length_filter_lt_length_iff_exists]
          simpa using hpre
        rw [shownRuns_append, List.length_append]
        cases u with
        | nil =>
          have hnone : shownRuns [r.part []] = [] := by simp [shownRuns, Run.part]
          rw [hnone, List.length_nil]
          omega
        | cons a u =>
          have hone : (shownRuns [r.part (a :: u)]).length ≤ 1 := List.length_filter_le _ _
          have hpos := Char.utf8Size_pos a
          rw [String.utf8Len_cons]
          omega
      rw [offsetInRuns_append _ _ hshort.1, hfront]
      constructor
      · intro heq
        refine .inr (by_contra fun hback => ?_)
        have hne : shownRuns back ≠ [] := mt shownRuns_eq_nil_iff.1 hback
        have hpos : 0 < offsetInRuns (shownRuns back)
            (pre.length - (shownRuns (pre ++ [r.part u])).length) (utf8Len u) :=
          offsetInRuns_pos hne (fun r hr => text_ne_nil_of_mem_shownRuns hr)
            fun hk => hshort.2 (by omega)
        omega
      · rintro (hall | hback)
        · exact absurd hall hpre
        · rw [shownRuns_eq_nil_iff.2 hback]
          rfl

end Orchid.Document
