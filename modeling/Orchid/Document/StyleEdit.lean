import Orchid.Document.Texts

/-!
# What a style edit leaves alone

Styling splits runs and patches them; it works on the body only and keeps the text of every
paragraph.
-/

namespace Orchid.Document

open Lib

/-! ### Paragraphs -/

/-- The two paragraphs show the same text. -/
def SameText (p p' : Paragraph) : Prop := p'.plainText = p.plainText

lemma SameText.refl (p : Paragraph) : SameText p p := rfl

lemma SameText.trans (p q r : Paragraph) (h : SameText p q) (h' : SameText q r) : SameText p r :=
  Eq.trans h' h

lemma relates_splitRunAt (runIdx byteOffset : ℕ) :
    Relates SameText (splitRunAt runIdx byteOffset) := by
  refine .get_bind fun p idx p' h => ?_
  cases hrun : p.runs[runIdx]? with
  | none => simp [hrun] at h
  | some run =>
    by_cases h0 : byteOffset = 0
    · obtain ⟨-, rfl⟩ : _ ∧ p = p' := by simpa [hrun, h0] using h
      exact .refl p
    · by_cases hge : byteOffset ≥ String.utf8Len run.text
      · obtain ⟨-, rfl⟩ : _ ∧ p = p' := by simpa [hrun, h0, hge] using h
        exact .refl p
      · cases hsplit : splitAtByte run.text byteOffset with
        | none => simp [hrun, h0, hge, hsplit] at h
        | some x =>
          obtain ⟨left, right⟩ := x
          obtain ⟨ht, -⟩ := splitAtByte_eq_some hsplit
          simp only [hrun, h0, hge, hsplit, if_false] at h
          cases h
          obtain ⟨hi, hget⟩ := List.getElem?_eq_some_iff.mp hrun
          have hruns : p.runs = p.runs.take runIdx ++ run :: p.runs.drop (runIdx + 1) := by
            conv_lhs => rw [← List.take_append_drop runIdx p.runs, List.drop_eq_getElem_cons hi, hget]
          rw [SameText, Paragraph.plainText, Paragraph.runs_withRuns, insertIdx_set_succ hi,
            Paragraph.plainText]
          conv_rhs => rw [hruns]
          simp [ht]

lemma relates_splitRangeEnd (runStart runEnd byteEnd : ℕ) :
    Relates SameText (splitRangeEnd runStart runEnd byteEnd) := by
  refine .bind .trans (.read .refl) fun p => ?_
  refine .ite (fun _ => ?_) fun _ => .ite (fun _ => .pure .refl _) fun _ => .pure .refl _
  exact .bind .trans (relates_splitRunAt runEnd byteEnd) fun _ => .pure .refl _

lemma relates_splitRangeStart (runStart byteStart endRun : ℕ) :
    Relates SameText (splitRangeStart runStart byteStart endRun) := by
  refine .bind .trans (.read .refl) fun p => ?_
  refine .ite (fun _ => ?_) fun _ => .ite (fun _ => .pure .refl _) fun _ => .pure .refl _
  exact .bind .trans (relates_splitRunAt runStart byteStart) fun _ => .pure .refl _

@[simp] lemma text_applyToRun (patch : RunStylePatch) (run : Run) :
    (patch.applyToRun run).text = run.text := rfl

lemma relates_patchRuns (patch : RunStylePatch) (startRun endRun : ℕ) :
    Relates SameText (patchRuns patch startRun endRun) := by
  refine .modify fun p => ?_
  have htext : ∀ x : Run × ℕ, (if startRun ≤ x.2 ∧ x.2 ≤ endRun then patch.applyToRun x.1
      else x.1).text = x.1.text := fun x => by split_ifs <;> rfl
  rw [SameText, Paragraph.plainText, Paragraph.runs_withRuns, List.mapIdx_eq_zipIdx_map,
    List.flatMap_map]
  simp only [htext]
  exact enumFlatMap_const Run.text p.runs

lemma relates_applyStyleToParagraphRange (runStart byteStart runEnd byteEnd : ℕ)
    (patch : RunStylePatch) :
    Relates SameText (applyStyleToParagraphRange runStart byteStart runEnd byteEnd patch) := by
  refine .bind .trans (.read .refl) fun p => .ite (fun _ => .throw _) fun _ => ?_
  refine .bind .trans (relates_splitRangeEnd runStart runEnd byteEnd) fun endRun => ?_
  refine .bind .trans (relates_splitRangeStart runStart byteStart endRun) fun x => ?_
  exact relates_patchRuns patch x.1 x.2

lemma relates_ensureRun : Relates SameText ensureRun := by
  refine .modify fun p => ?_
  cases hp : p.runs with
  | nil => simp [SameText, Paragraph.plainText, hp]
  | cons run runs => rfl

lemma relates_patchCollapsed (patch : RunStylePatch) (runIdx : ℕ) :
    Relates SameText (patchCollapsed patch runIdx) := by
  refine .modify fun p => ?_
  have hmodify : ∀ (runs : List Run) (i : ℕ),
      (runs.modify i patch.applyToRun).flatMap Run.text = runs.flatMap Run.text := by
    intro runs
    induction runs with
    | nil => simp
    | cons run runs ih =>
      intro i
      cases i with
      | zero => simp
      | succ i => simp [ih]
  exact hmodify _ _

/-! ### Documents -/

/-- The edit works on the body and keeps the texts of its paragraphs. -/
def KeepsTexts (d d' : Document) : Prop :=
  ∃ blocks, d' = { d with blocks } ∧ blocks.flatMap Block.texts = d.blocks.flatMap Block.texts

lemma KeepsTexts.refl (d : Document) : KeepsTexts d d := ⟨d.blocks, rfl, rfl⟩

lemma KeepsTexts.trans (d e f : Document) (h : KeepsTexts d e) (h' : KeepsTexts e f) :
    KeepsTexts d f := by
  obtain ⟨blocks, rfl, htexts⟩ := h
  obtain ⟨blocks', rfl, htexts'⟩ := h'
  exact ⟨blocks', rfl, htexts'.trans htexts⟩

lemma keepsTexts_set_paragraphMut {d : Document} {c : Cursor} {p p' : Paragraph}
    (h : (paragraphMut c).get? d = some p) (htext : SameText p p') :
    KeepsTexts d ((paragraphMut c).set p' d) := by
  obtain ⟨hpl, hset⟩ := places_set_paragraphMut h
  obtain ⟨blocks, heq, hpl'⟩ := hset p'
  refine ⟨blocks, heq, ?_⟩
  rw [← texts_places, ← texts_places, hpl, hpl', SameText] at *
  simp [texts, htext]

lemma relates_applySetRunStyleOnePara (start stop : Cursor) (patch : RunStylePatch) :
    Relates SameText (applySetRunStyleOnePara start stop patch) := by
  refine .bind .trans relates_ensureRun fun _ => .ite (fun _ => ?_) fun _ => ?_
  · exact relates_patchCollapsed _ _
  · exact relates_applyStyleToParagraphRange _ _ _ _ _

lemma relates_applySetRunStyleInBlock (start stop : Cursor) (patch : RunStylePatch) (bi : ℕ) :
    Relates SameText (applySetRunStyleInBlock start stop patch bi) := by
  refine .bind .trans relates_ensureRun fun _ => .bind .trans (.read .refl) fun p => ?_
  refine .ite (fun _ => ?_) fun _ => ?_
  · exact relates_patchCollapsed _ _
  · exact relates_applyStyleToParagraphRange _ _ _ _ _

lemma keepsTexts_set_blockAt {d : Document} {i : ℕ} {b b' : Block}
    (h : (blockAt i).get? d = some b) (htexts : b'.texts = b.texts) :
    KeepsTexts d ((blockAt i).set b' d) := by
  refine ⟨d.blocks.set i b', rfl, ?_⟩
  obtain ⟨pre, post, hpre, hset⟩ := Focus.Window.index (fun b _ => b.texts) i h
  simp only [enumFlatMap_const] at hpre hset
  have hnew := hset b'
  rw [htexts, ← hpre] at hnew
  exact hnew

/-- The two blocks show the same texts. -/
def SameTexts (b b' : Block) : Prop := b'.texts = b.texts

lemma SameTexts.refl (b : Block) : SameTexts b b := rfl

lemma SameTexts.trans (a b c : Block) (h : SameTexts a b) (h' : SameTexts b c) : SameTexts a c :=
  Eq.trans h' h

/-- Any block but a paragraph is passed over. -/
lemma relates_styleBlock (start stop : Cursor) (patch : RunStylePatch) (bi : ℕ) :
    Relates SameTexts (do
      match ← get with
      | .paragraph _ =>
        asParagraph.borrow Fault.editOutOfBounds (applySetRunStyleInBlock start stop patch bi)
      | _ => return ()) := by
  refine .bind .trans (.read .refl) fun b => ?_
  cases b with
  | table t => exact .pure .refl _
  | image i => exact .pure .refl _
  | paragraph p =>
    refine asParagraph.relates_borrow (relates_applySetRunStyleInBlock start stop patch bi) ?_
    intro s a a' hget htext
    cases s with
    | table t => simp [asParagraph, Focus.case] at hget
    | image i => simp [asParagraph, Focus.case] at hget
    | paragraph q =>
      obtain rfl : q = a := by simpa [asParagraph, Focus.case] using hget
      exact congrArg (fun t => [t]) htext

/-- Styling keeps the text of every paragraph, and everything but the body. -/
lemma relates_applySetRunStyle (range : Selection) (patch : RunStylePatch) :
    Relates KeepsTexts (applySetRunStyle range patch) := by
  refine .ite (fun _ => ?_) fun _ => .ite (fun _ => .throw _) fun _ => ?_
  · exact (paragraphMut _).relates_borrow (relates_applySetRunStyleOnePara _ _ patch)
      keepsTexts_set_paragraphMut
  · refine .bind .trans (.read .refl) fun d => .ite (fun _ => .throw _) fun _ => ?_
    refine .forM .refl .trans _ fun bi _ => ?_
    exact (blockAt bi).relates_borrow (relates_styleBlock _ _ patch bi) keepsTexts_set_blockAt

end Orchid.Document
