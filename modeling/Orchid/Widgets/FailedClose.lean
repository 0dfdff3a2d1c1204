import Orchid.Widgets.Closing

/-!
# Failed closes

`close` takes the instance out of the map and the index before it asks the widget and the store,
and neither failure puts it back.
-/

namespace Orchid.Widgets

namespace Manager

/-- `close_locked` with the deletion of the row; `a` are the answers of `on_close` and the store. -/
def close (m : Manager) (a : Answers) (id : Uuid) : Manager × Except WidgetError Unit :=
  match m.instances id with
  | none => (m, .error (.instanceNotFound id))
  | some inst =>
    let m := (m.setInstance id none).unindexWorkspace inst.workspaceId id
    match a.hook with
    | .error e => (m, .error e)
    | .ok _ =>
      let m := { m with layoutDirty := m.layoutDirty.erase id }
      match a.stored with
      | .error e => (m, .error (.storage e))
      | .ok _ => (m.setRow id none, .ok ())

/-- The widget is where it was: in the map, the index, the queue of layout saves and the store. -/
structure StillThere (id : Uuid) (m m' : Manager) : Prop extends Same id m m' where
  layoutDirty : id ∈ m'.layoutDirty ↔ id ∈ m.layoutDirty

/-- A failed close leaves the widget where it was. -/
def CloseAtomic (m : Manager) (a : Answers) (id : Uuid) : Prop :=
  ∀ e, (m.close a id).2 = .error e → StillThere id m (m.close a id).1

variable {m : Manager} {a : Answers} {id : Uuid}

lemma close_of_none (h : m.instances id = none) :
    m.close a id = (m, .error (.instanceNotFound id)) := by
  rw [close, h]

/-- The instance is gone, however the close ends. -/
lemma instances_close (m : Manager) (a : Answers) (id : Uuid) :
    (m.close a id).1.instances id = none := by
  cases h : m.instances id with
  | none => rw [close_of_none h, h]
  | some inst =>
    have hgone : ((m.setInstance id none).unindexWorkspace inst.workspaceId id).instances id =
        none := by
      show Function.update m.instances id none id = none
      exact Function.update_self ..
    rw [close, h]
    cases a.hook with
    | error e => exact hgone
    | ok _ =>
      cases a.stored with
      | error e => exact hgone
      | ok _ => exact hgone

/-- A close of an instance succeeds if the widget and the store let it. -/
lemma close_ok_iff {inst : SharedInstance} (h : m.instances id = some inst) :
    (m.close a id).2 = .ok () ↔ a.hook = .ok () ∧ a.stored = .ok () := by
  rw [close, h]
  cases a.hook with
  | error e => simp
  | ok _ =>
    cases a.stored with
    | error e => simp
    | ok _ => simp

lemma closeAtomic_iff (m : Manager) (a : Answers) (id : Uuid) :
    m.CloseAtomic a id ↔ m.instances id = none ∨ a.hook = .ok () ∧ a.stored = .ok () := by
  cases h : m.instances id with
  | none =>
    refine iff_of_true (fun e _ => ?_) (.inl rfl)
    rw [close_of_none h]
    exact ⟨Same.refl id m, Iff.rfl⟩
  | some inst =>
    rw [← close_ok_iff h, or_iff_right (by simp)]
    cases hresult : (m.close a id).2 with
    | ok u => exact iff_of_true (fun e he => by rw [hresult] at he; cases he) rfl
    | error e =>
      refine iff_of_false (fun hatomic => ?_) (by simp)
      have hsame := (hatomic e hresult).instances
      rw [instances_close, h] at hsame
      cases hsame

/-- A failed close leaves the widget where it was exactly if there is no instance, or nothing
fails. -/
theorem close_atomic_iff (m : Manager) (a : Answers) (id : Uuid) :
    m.CloseAtomic a id ↔ m.instances id = none ∨ a.hook = .ok () ∧ a.stored = .ok () :=
  closeAtomic_iff m a id

/-- A manager with one stored widget. -/
def oneWidget : Manager := System.enter { registry := fun _ => none } ⟨1, 0, [], 0, 0⟩ {} true

lemma instances_oneWidget : oneWidget.instances 1 = some ⟨1, 0, [], 0, 0⟩ := by
  show Function.update (fun _ : Uuid => none) 1 (some (⟨1, 0, [], 0, 0⟩ : SharedInstance)) 1 = _
  exact Function.update_self ..

/-- A widget whose `on_close` fails is gone from the manager. -/
theorem not_close_atomic : ¬ ∀ (m : Manager) (a : Answers) (id : Uuid), m.CloseAtomic a id := by
  intro h
  have hatomic := h oneWidget ⟨0, .error (.creationFailed []), .ok [], .ok (), .ok ()⟩ 1
  rcases (closeAtomic_iff _ _ _).mp hatomic with hnone | ⟨hook, -⟩
  · rw [instances_oneWidget] at hnone
    cases hnone
  · cases hook

end Manager

end Orchid.Widgets
