import Orchid.Document.Inverse
import Orchid.Lib.History

/-!
# Undoing and redoing runs

A run of pushes leaves the applied commands on the stack with their inverses. If each of them was
undoable where it was applied, as many undos lead back to the document before the run, and as many
redos lead on to the document after it.
-/

namespace Orchid.Document

open Lib

/-- Do something `n` times. -/
def times {σ : Type} : ℕ → Edit σ Unit → Edit σ Unit
  | 0, _ => return ()
  | n + 1, x => do
    x
    times n x

/-- A command leads from a document to another one, with an inverse. -/
def Applies (cmd : EditCommand) (d : Document) (inverse : EditCommand) (d' : Document) : Prop :=
  (applyCommand cmd).run d = .ok inverse d'

/-- Every command is undoable in the document it is applied to. -/
def EachUndoable (d : Document) : List EditCommand → Prop
  | [] => True
  | cmd :: cmds => Undoable d cmd ∧ ∀ inverse d', Applies cmd d inverse d' → EachUndoable d' cmds

namespace UndoStack

/-- Push commands one after another. -/
def pushAll (cmds : List EditCommand) : Edit (UndoStack × Document) Unit := cmds.forM push

/-- Undoing as many times as commands were pushed gives back the document before the pushes, and
redoing as many times the document after them. -/
def UndoesAndRedoes (cmds : List EditCommand) (st : UndoStack) (d : Document) : Prop :=
  ∀ st₁ d', (pushAll cmds).run (st, d) = .ok () (st₁, d') →
    ∃ st₂ st₃, (times cmds.length undo).run (st₁, d') = .ok () (st₂, d) ∧
      (times cmds.length redo).run (st₂, d) = .ok () (st₃, d')

/-! ### One step -/

variable {st st' : UndoStack} {d d' e : Document} {cmd : EditCommand}

lemma push_eq_ok_iff : (push cmd).run (st, d) = .ok () (st', d') ↔
    ∃ inverse, Applies cmd d inverse d' ∧
      { st with past := ⟨cmd, inverse⟩ :: st.past, future := [], dirty := true } = st' := by
  rw [push, Run.bind_eq_ok]
  constructor
  · rintro ⟨inverse, s, happ, hret⟩
    obtain ⟨a, a', hget, hrun, rfl⟩ := documentOf.borrow_eq_ok.mp happ
    cases hget
    cases hret
    exact ⟨inverse, hrun, rfl⟩
  · rintro ⟨inverse, happ, rfl⟩
    exact ⟨inverse, (st, d'), documentOf.borrow_eq_ok.mpr ⟨d, d', rfl, happ, rfl⟩, rfl⟩

lemma undo_of_leadsBack {inverse : EditCommand} {past : List StackEntry}
    (hpast : st.past = ⟨cmd, inverse⟩ :: past) (h : LeadsBack Applies inverse d d') :
    ∃ st', undo.run (st, d) = .ok () (st', d') ∧ st'.past = past ∧
      st'.future = cmd :: st.future := by
  obtain ⟨j, hj⟩ := h
  refine ⟨{ st with past, future := cmd :: st.future, dirty := past.length ≠ st.savedLen }, ?_, rfl,
    rfl⟩
  have happ : (documentOf.borrow .editOutOfBounds (applyCommand inverse)).run
      ({ st with past }, d) = .ok j ({ st with past }, d') :=
    documentOf.borrow_eq_ok.mpr ⟨d, d', rfl, hj, rfl⟩
  simp [undo, hpast, happ]

/-- An undo that succeeds has applied the inverse. -/
lemma leadsBack_of_undo {inverse : EditCommand} {past : List StackEntry}
    (hpast : st.past = ⟨cmd, inverse⟩ :: past) (h : undo.run (st, d) = .ok () (st', d')) :
    LeadsBack Applies inverse d d' := by
  cases happ : (documentOf.borrow .editOutOfBounds (applyCommand inverse)).run
      ({ st with past }, d) with
  | error e s => simp [undo, hpast, happ] at h
  | ok j s =>
    obtain ⟨a, a', hget, hrun, rfl⟩ := documentOf.borrow_eq_ok.mp happ
    cases hget
    have hd : (documentOf.set a' ({ st with past }, d)).2 = d' := by
      simp only [undo, EStateM.run_bind, EStateM.run_get, EStateM.run_set, hpast, happ] at h
      cases h
      rfl
    exact ⟨j, hd ▸ hrun⟩

lemma redo_of_applies {inverse : EditCommand} {future : List EditCommand}
    (hfuture : st.future = cmd :: future) (h : Applies cmd d inverse d') :
    ∃ st', redo.run (st, d) = .ok () (st', d') ∧ st'.future = future ∧
      st'.past = ⟨cmd, inverse⟩ :: st.past := by
  refine ⟨{ st with future, past := ⟨cmd, inverse⟩ :: st.past, dirty := true }, ?_, rfl, rfl⟩
  have happ : (documentOf.borrow .editOutOfBounds (applyCommand cmd)).run ({ st with future }, d) =
      .ok inverse ({ st with future }, d') :=
    documentOf.borrow_eq_ok.mpr ⟨d, d', rfl, h, rfl⟩
  simp [redo, hfuture, happ]

lemma applies_of_redo {future : List EditCommand} (hfuture : st.future = cmd :: future)
    (h : redo.run (st, d) = .ok () (st', d')) : ∃ inverse, Applies cmd d inverse d' := by
  cases happ : (documentOf.borrow .editOutOfBounds (applyCommand cmd)).run
      ({ st with future }, d) with
  | error e s => simp [redo, hfuture, happ] at h
  | ok j s =>
    obtain ⟨a, a', hget, hrun, rfl⟩ := documentOf.borrow_eq_ok.mp happ
    cases hget
    have hd : (documentOf.set a' ({ st with future }, d)).2 = d' := by
      simp only [redo, EStateM.run_bind, EStateM.run_get, EStateM.run_set, hfuture, happ] at h
      cases h
      rfl
    exact ⟨j, hd ▸ hrun⟩

/-! ### Runs -/

/-- The entry of an applied command. -/
def entryOf (x : EditCommand × EditCommand) : StackEntry := ⟨x.1, x.2⟩

lemma past_of_pushAll {cmds : List EditCommand} {past : List (EditCommand × EditCommand)}
    {base : List StackEntry} (hpast : Past Applies e past d)
    (hst : st.past = past.map entryOf ++ base) (hok : EachUndoable d cmds)
    (h : (pushAll cmds).run (st, d) = .ok () (st', d')) :
    ∃ past', Past Applies e past' d' ∧ past'.length = past.length + cmds.length ∧
      st'.past = past'.map entryOf ++ base := by
  induction cmds generalizing st d past with
  | nil =>
    cases h
    exact ⟨past, hpast, rfl, hst⟩
  | cons cmd cmds ih =>
    obtain ⟨_, ⟨st₁, d₁⟩, hpush, hrest⟩ := Run.bind_eq_ok.mp h
    obtain ⟨inverse, happ, rfl⟩ := push_eq_ok_iff.mp hpush
    have hback : LeadsBack Applies inverse d₁ d := (restores_iff_undoable happ).mpr hok.1
    obtain ⟨past', hpast', hlen, hst'⟩ := ih (hpast.cons happ hback)
      (by simp [hst, entryOf]) (hok.2 inverse d₁ happ) hrest
    refine ⟨past', hpast', ?_, hst'⟩
    rw [hlen, List.length_cons, List.length_cons]
    omega

lemma times_undo {past : List (EditCommand × EditCommand)} {base : List StackEntry}
    {future : List EditCommand} (hpast : Past Applies e past d)
    (hst : st.past = past.map entryOf ++ base) (hfuture : Future Applies d' future d)
    (hf : ∃ rest, st.future = future ++ rest) :
    ∃ st' future', (times past.length undo).run (st, d) = .ok () (st', e) ∧
      Future Applies d' future' e ∧ future'.length = past.length + future.length ∧
      ∃ rest, st'.future = future' ++ rest := by
  induction past generalizing st d future with
  | nil =>
    obtain rfl := hpast.eq_of_nil
    exact ⟨st, future, rfl, hfuture, by simp, hf⟩
  | cons x past ih =>
    obtain ⟨cmd, inverse⟩ := x
    obtain ⟨d₁, hback, hpast₁, hfuture₁⟩ := hpast.undo hfuture
    obtain ⟨st₁, hundo, hst₁, hf₁⟩ := undo_of_leadsBack hst hback
    obtain ⟨rest, hrest⟩ := hf
    obtain ⟨st', future', hrun, hfuture', hlen, hf'⟩ := ih hpast₁ hst₁ hfuture₁
      ⟨rest, by rw [hf₁, hrest]; rfl⟩
    refine ⟨st', future', ?_, hfuture', ?_, hf'⟩
    · exact Run.bind_eq_ok.mpr ⟨(), _, hundo, hrun⟩
    · rw [hlen, List.length_cons, List.length_cons]
      omega

lemma times_redo {future : List EditCommand} (hfuture : Future Applies e future d)
    (hf : ∃ rest, st.future = future ++ rest) :
    ∃ st', (times future.length redo).run (st, d) = .ok () (st', e) := by
  induction future generalizing st d with
  | nil =>
    obtain rfl := hfuture.eq_of_nil
    exact ⟨st, rfl⟩
  | cons cmd future ih =>
    obtain ⟨inverse, d₁, happ, hfuture₁, -⟩ := hfuture.redo (.nil (s := d))
    obtain ⟨rest, hrest⟩ := hf
    obtain ⟨st₁, hredo, hf₁, -⟩ := redo_of_applies hrest happ
    obtain ⟨st', hrun⟩ := ih hfuture₁ ⟨rest, hf₁⟩
    exact ⟨st', Run.bind_eq_ok.mpr ⟨(), _, hredo, hrun⟩⟩

/-! ### The whole run -/

lemma undoesAndRedoes {cmds : List EditCommand} (hok : EachUndoable d cmds) :
    UndoesAndRedoes cmds st d := by
  intro st₁ d' hpush
  obtain ⟨past, hpast, hlen, hst₁⟩ := past_of_pushAll (.nil : Past Applies d [] d) rfl hok hpush
  obtain ⟨st₂, future, hundo, hfuture, hlen', hf⟩ := times_undo hpast hst₁ .nil ⟨st₁.future, rfl⟩
  obtain ⟨st₃, hredo⟩ := times_redo hfuture hf
  simp only [List.length_nil, Nat.zero_add, Nat.add_zero] at hlen hlen'
  rw [hlen] at hundo
  rw [hlen', hlen] at hredo
  exact ⟨st₂, st₃, hundo, hredo⟩

lemma undoable_of_undoesAndRedoes (h : UndoesAndRedoes [cmd] st d) {inverse : EditCommand}
    (happ : Applies cmd d inverse d') : Undoable d cmd := by
  obtain ⟨st₂, st₃, hundo, -⟩ := h _ d'
    (Run.bind_eq_ok.mpr ⟨(), _, push_eq_ok_iff.mpr ⟨inverse, happ, rfl⟩, rfl⟩)
  obtain ⟨_, ⟨st', e⟩, hone, hret⟩ := Run.bind_eq_ok.mp hundo
  cases hret
  have hback : LeadsBack Applies inverse d' d := leadsBack_of_undo rfl hone
  exact (restores_iff_undoable happ).mp hback

/-- Undo and redo are exact after a single command exactly if it is undoable where it is applied,
and after a run if every command of the run is. -/
theorem undoesAndRedoes_of_undoable (cmds : List EditCommand) (st : UndoStack) (d : Document) :
    (∀ cmd, UndoesAndRedoes [cmd] st d ↔
      ((∃ inverse d', Applies cmd d inverse d') → Undoable d cmd)) ∧
      (EachUndoable d cmds → UndoesAndRedoes cmds st d) := by
  refine ⟨fun cmd => ⟨?_, ?_⟩, fun hok => undoesAndRedoes hok⟩
  · rintro h ⟨inverse, d', happ⟩
    exact undoable_of_undoesAndRedoes h happ
  · intro hok st₁ d' hpush
    obtain ⟨_, ⟨st', e⟩, hone, -⟩ := Run.bind_eq_ok.mp hpush
    obtain ⟨inverse, happ, -⟩ := push_eq_ok_iff.mp hone
    have heach : EachUndoable d [cmd] := ⟨hok ⟨inverse, e, happ⟩, fun _ _ _ => trivial⟩
    exact undoesAndRedoes heach st₁ d' hpush

/-- Typing behind a letter and deleting the letter. -/
theorem undoesAndRedoes_type_and_delete :
    UndoesAndRedoes
      [.insertText ⟨0, none, 0, 1⟩ ['B'], .deleteRange ⟨⟨0, none, 0, 0⟩, ⟨0, none, 0, 1⟩⟩] {}
      { blocks := [.paragraph { runs := [{ text := ['A'] }] }] } := by
  refine (undoesAndRedoes_of_undoable _ _ _).2 ⟨?_, fun _ _ _ => ⟨rfl, fun _ _ _ => trivial⟩⟩
  intro p hp
  obtain rfl := Option.some.inj hp
  exact List.cons_ne_nil _ _

/-- The first of two blocks comes back on top of the second one. -/
theorem not_undoesAndRedoes_removeBlock :
    ¬ UndoesAndRedoes [.removeBlock 0] {}
      { blocks := [.image ⟨[], .png, 1, 1, none, none⟩, .paragraph { runs := [{ text := ['A'] }] }] } := by
  intro h
  have hlast : 0 + 1 = 2 := undoable_of_undoesAndRedoes h rfl
  omega

end UndoStack

end Orchid.Document
