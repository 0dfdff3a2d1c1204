import Orchid.Document.UndoRuns

/-!
# The clean flag

Runs of an undo stack in which the document is saved now and then. The flag compares lengths of the
history after an undo and is set by every redo; what it should tell is whether the document is the
one last saved.
-/

namespace Orchid.Document

open Lib

namespace UndoStack

/-! ### Runs with saves -/

/-- What a viewer calls on its undo stack. -/
inductive Call where
  | push (cmd : EditCommand)
  | undo
  | redo
  | markClean

def Call.run : Call → Edit (UndoStack × Document) Unit
  | push cmd => UndoStack.push cmd
  | undo => UndoStack.undo
  | redo => UndoStack.redo
  | markClean => modify fun (st, d) => (st.markClean, d)

/-- The call moves in the history. -/
def Call.Moves : Call → Prop
  | undo | redo => True
  | _ => False

/-- The commands that led to the current document, the last one first. -/
def history (st : UndoStack) : List EditCommand := st.past.map StackEntry.forward

/-- The history and the document when it was saved last. -/
structure Mark where
  history : List EditCommand
  document : Document

def Mark.after (m : Mark) (st : UndoStack) (d : Document) : Call → Mark
  | .markClean => ⟨st.history, d⟩
  | _ => m

/-- A stack, its document and the last mark. -/
structure Marked where
  stack : UndoStack
  document : Document
  mark : Mark

/-- The document with a fresh stack. -/
def Marked.initial (d : Document) : Marked := ⟨{}, d, ⟨[], d⟩⟩

/-- A call that succeeds. -/
inductive Marked.Step : Marked → Call → Marked → Prop where
  | intro {st st' : UndoStack} {d d' : Document} {m : Mark} {c : Call}
      (h : c.run.run (st, d) = .ok () (st', d')) :
      Step ⟨st, d, m⟩ c ⟨st', d', m.after st d c⟩

/-- The flag after a call: if it is off, the document is the marked one; it is off if the call has
brought the history back to the marked one. -/
def Marked.Truthful (c : Call) (s : Marked) : Prop :=
  (s.stack.dirty = false → s.document = s.mark.document) ∧
    (c.Moves → s.stack.history = s.mark.history → s.stack.dirty = false)

/-- In every state that a run reaches the flag is truthful. -/
def TruthfulRun : Marked → List Call → Prop
  | _, [] => True
  | s, c :: cs => ∀ s', s.Step c s' → s'.Truthful c ∧ TruthfulRun s' cs

/-! ### Clean runs -/

/-- The entries were recorded one after the other on the way from `d₀` to `d`. -/
inductive Trail (d₀ : Document) : List StackEntry → Document → Prop where
  | nil : Trail d₀ [] d₀
  | cons {past : List StackEntry} {d d' : Document} {cmd inverse : EditCommand}
      (h : Trail d₀ past d) (happ : Applies cmd d inverse d') :
      Trail d₀ (⟨cmd, inverse⟩ :: past) d'

/-- An undo takes back a command that was undoable where it was applied, and does not come to
another history of the marked length; a redo does not come to the marked history. -/
def Marked.CleanCall (d₀ : Document) (s : Marked) : Call → Prop
  | .undo => ∀ entry past, s.stack.past = entry :: past →
      (∀ d, Trail d₀ past d → Undoable d entry.forward) ∧
        (past.length = s.stack.savedLen → past.map StackEntry.forward = s.mark.history)
  | .redo => ∀ cmd future, s.stack.future = cmd :: future →
      cmd :: s.stack.history ≠ s.mark.history
  | _ => True

/-- Every call of the run is clean. -/
def CleanRun (d₀ : Document) : Marked → List Call → Prop
  | _, [] => True
  | s, c :: cs => s.CleanCall d₀ c ∧ ∀ s', s.Step c s' → CleanRun d₀ s' cs

/-! ### What holds along a clean run -/

variable {d₀ d d' : Document} {past past' : List StackEntry} {st st' : UndoStack}

/-- Equal histories end at the same document. -/
lemma Trail.document_eq (h : Trail d₀ past d) (h' : Trail d₀ past' d')
    (heq : past.map StackEntry.forward = past'.map StackEntry.forward) : d = d' := by
  induction h generalizing past' d' with
  | nil =>
    cases h' with
    | nil => rfl
    | cons _ _ => simp at heq
  | cons h happ ih =>
    cases h' with
    | nil => simp at heq
    | cons h' happ' =>
      simp only [List.map_cons, List.cons.injEq] at heq
      obtain ⟨rfl, hpast⟩ := heq
      obtain rfl := ih h' hpast
      cases happ.symm.trans happ'
      rfl

/-- The stack records how the document came about, and the mark stands where it did when the
document was saved. -/
structure Marked.Recorded (d₀ : Document) (s : Marked) : Prop where
  trail : Trail d₀ s.stack.past s.document
  marked : ∃ past, Trail d₀ past s.mark.document ∧ past.map StackEntry.forward = s.mark.history
  savedLen : s.stack.savedLen = s.mark.history.length
  clean : s.stack.dirty = false → s.document = s.mark.document

lemma Marked.Recorded.initial (d : Document) : (Marked.initial d).Recorded d where
  trail := .nil
  marked := ⟨[], .nil, rfl⟩
  savedLen := rfl
  clean _ := rfl

lemma undo_eq_ok (h : undo.run (st, d) = .ok () (st', d')) :
    ∃ cmd inverse past, st.past = ⟨cmd, inverse⟩ :: past ∧ LeadsBack Applies inverse d d' ∧
      st' = { st with past, future := cmd :: st.future, dirty := past.length ≠ st.savedLen } := by
  cases hpast : st.past with
  | nil => simp [undo, hpast] at h
  | cons entry past =>
    obtain ⟨cmd, inverse⟩ := entry
    have hback := leadsBack_of_undo hpast h
    refine ⟨cmd, inverse, past, rfl, hback, ?_⟩
    obtain ⟨j, hj⟩ := hback
    have happ : (documentOf.borrow .editOutOfBounds (applyCommand inverse)).run
        ({ st with past }, d) = .ok j ({ st with past }, d') :=
      documentOf.borrow_eq_ok.mpr ⟨d, d', rfl, hj, rfl⟩
    have hrun := h
    simp only [undo, EStateM.run_bind, EStateM.run_get, EStateM.run_set, hpast, happ,
      EStateM.run_modify] at hrun
    cases hrun
    rfl

lemma redo_eq_ok (h : redo.run (st, d) = .ok () (st', d')) :
    ∃ cmd inverse future, st.future = cmd :: future ∧ Applies cmd d inverse d' ∧
      st' = { st with future, past := ⟨cmd, inverse⟩ :: st.past, dirty := true } := by
  cases hfuture : st.future with
  | nil => simp [redo, hfuture] at h
  | cons cmd future =>
    obtain ⟨inverse, happ⟩ := applies_of_redo hfuture h
    refine ⟨cmd, inverse, future, rfl, happ, ?_⟩
    have happ' : (documentOf.borrow .editOutOfBounds (applyCommand cmd)).run
        ({ st with future }, d) = .ok inverse ({ st with future }, d') :=
      documentOf.borrow_eq_ok.mpr ⟨d, d', rfl, happ, rfl⟩
    have hrun := h
    simp only [redo, EStateM.run_bind, EStateM.run_get, EStateM.run_set, hfuture, happ',
      EStateM.run_modify] at hrun
    cases hrun
    rfl

/-- The inverse of an undoable command leads back to one document. -/
lemma LeadsBack.eq_of_undoable {cmd inverse : EditCommand} {e : Document}
    (happ : Applies cmd d inverse d') (hundo : Undoable d cmd)
    (hback : LeadsBack Applies inverse d' e) : e = d := by
  obtain ⟨j, hj⟩ := (restores_iff_undoable happ).mpr hundo
  obtain ⟨j', hj'⟩ := hback
  cases hj'.symm.trans hj
  rfl

lemma Marked.Recorded.step {s s' : Marked} {c : Call} (hs : s.Recorded d₀)
    (hc : s.CleanCall d₀ c) (h : s.Step c s') : s'.Recorded d₀ ∧ s'.Truthful c := by
  obtain @⟨st, st', d, d', m, c, h⟩ := h
  cases c with
  | push cmd =>
    obtain ⟨inverse, happ, rfl⟩ := push_eq_ok_iff.mp h
    exact ⟨⟨hs.trail.cons happ, hs.marked, hs.savedLen, by simp⟩, by simp, by simp [Call.Moves]⟩
  | undo =>
    obtain ⟨cmd, inverse, past, hpast, hback, rfl⟩ := undo_eq_ok h
    obtain ⟨hundo, hlen⟩ := hc _ past hpast
    have htrail : Trail d₀ (⟨cmd, inverse⟩ :: past) d := hpast ▸ hs.trail
    cases htrail with
    | cons htrail happ =>
      obtain rfl := LeadsBack.eq_of_undoable happ (hundo _ htrail) hback
      have hclean : past.length = st.savedLen → d' = m.document := by
        intro heq
        obtain ⟨pastm, htrailm, hpastm⟩ := hs.marked
        exact htrail.document_eq htrailm ((hlen heq).trans hpastm.symm)
      have hflag : decide (past.length ≠ st.savedLen) = false → d' = m.document := by
        simpa using hclean
      refine ⟨⟨htrail, hs.marked, hs.savedLen, hflag⟩, hflag, fun _ heq => ?_⟩
      have hmark : past.map StackEntry.forward = m.history := heq
      have hlength : past.length = m.history.length := by
        rw [← hmark, List.length_map]
      simpa [hlength] using hs.savedLen.symm
  | redo => 
    obtain ⟨cmd, inverse, future, hfuture, happ, rfl⟩ := redo_eq_ok h
    refine ⟨⟨hs.trail.cons happ, hs.marked, hs.savedLen, by simp⟩, by simp, ?_⟩
    intro _ heq
    exact absurd heq (hc cmd future hfuture)
  | markClean =>
    cases h
    refine ⟨⟨hs.trail, ⟨st.past, hs.trail, rfl⟩, ?_, fun _ => rfl⟩, fun _ => rfl,
      by simp [Call.Moves]⟩
    simp [markClean, Mark.after, history]

lemma truthfulRun {s : Marked} {cs : List Call} (hs : s.Recorded d₀) (h : CleanRun d₀ s cs) :
    TruthfulRun s cs := by
  induction cs generalizing s with
  | nil => trivial
  | cons c cs ih =>
    obtain ⟨hc, hrest⟩ := h
    intro s' hstep
    obtain ⟨hs', htrue⟩ := hs.step hc hstep
    exact ⟨htrue, ih hs' (hrest s' hstep)⟩

/-- Along a clean run from a fresh stack the flag is truthful after every call; after a redo, from
whatever state, it is so only if the redo is clean. -/
theorem truthfulRun_of_clean (d₀ : Document) (cs : List Call) :
    (CleanRun d₀ (.initial d₀) cs → TruthfulRun (.initial d₀) cs) ∧
      ∀ s s' : Marked, s.Step .redo s' → (s'.Truthful .redo ↔ s.CleanCall d₀ .redo) := by
  refine ⟨truthfulRun (.initial d₀), ?_⟩
  rintro s s' ⟨h⟩
  obtain ⟨cmd, inverse, future, hfuture, -, rfl⟩ := redo_eq_ok h
  constructor
  · rintro ⟨-, hflag⟩ cmd' future' hfuture' heq
    cases hfuture.symm.trans hfuture'
    exact Bool.noConfusion (hflag trivial heq)
  · intro hclean
    refine ⟨fun hdirty => Bool.noConfusion hdirty, fun _ heq => ?_⟩
    exact absurd heq (hclean cmd future hfuture)

/-- A document with the text `A`. -/
def letterA : Document := { blocks := [.paragraph { runs := [{ text := ['A'] }] }] }

/-- Typing, saving, typing again and undoing that. -/
theorem truthfulRun_save_between : TruthfulRun (.initial letterA)
    [.push (.insertText ⟨0, none, 0, 1⟩ ['B']), .markClean,
      .push (.insertText ⟨0, none, 0, 2⟩ ['C']), .undo] := by
  refine (truthfulRun_of_clean letterA _).1 ⟨trivial, ?_⟩
  rintro _ ⟨h₁⟩
  cases h₁
  refine ⟨trivial, ?_⟩
  rintro _ ⟨h₂⟩
  cases h₂
  refine ⟨trivial, ?_⟩
  rintro _ ⟨h₃⟩
  cases h₃
  refine ⟨?_, fun _ _ => trivial⟩
  intro entry past hpast
  cases hpast
  refine ⟨fun d htrail p hp => ?_, fun _ => rfl⟩
  have hsaved : Trail letterA [⟨.insertText ⟨0, none, 0, 1⟩ ['B'], _⟩]
      { blocks := [.paragraph { runs := [{ text := ['A', 'B'] }] }] } := .cons .nil rfl
  obtain rfl := htrail.document_eq hsaved rfl
  obtain rfl := Option.some.inj hp
  exact List.cons_ne_nil _ _

/-- Undoing below the mark, typing twice and undoing once comes to a history as long as the marked
one: the flag is off, but the document is not the saved one. -/
theorem not_truthfulRun_new_branch : ¬ ∀ d₀ cs, TruthfulRun (.initial d₀) cs := by
  intro h
  have h := h letterA [.push (.insertText ⟨0, none, 0, 1⟩ ['B']), .markClean, .undo,
    .push (.insertText ⟨0, none, 0, 1⟩ ['C']), .push (.insertText ⟨0, none, 0, 2⟩ ['D']), .undo]
  have hdoc := ((((((h _ ⟨rfl⟩).2 _ ⟨rfl⟩).2 _ ⟨rfl⟩).2 _ ⟨rfl⟩).2 _ ⟨rfl⟩).2 _ ⟨rfl⟩).1.1 rfl
  have htext := congrArg (fun d : Document => bodyText d.blocks) hdoc
  exact absurd htext (by decide)

end UndoStack

end Orchid.Document
