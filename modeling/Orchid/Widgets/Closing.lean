import Mathlib.Logic.Relation
import Orchid.Widgets.Manager

/-!
# Closed widgets

A call that read an instance before an await writes it back behind the await without a second look.
What is in the maps of the manager under an id, in its index and in the store is followed through
the steps of all calls; a step is safe if it writes nothing under an id that was closed meanwhile
(`Safe`).
-/

namespace Orchid.Widgets

/-- The instance that a call holds. -/
def Phase.inst? : Phase → Option SharedInstance
  | .awaitHook inst _ | .inHook inst _ | .awaitSave inst => some inst
  | .begun | .returned _ => none

/-- A `close` has taken the instance out of the map and has not failed. -/
def Phase.Taken : Phase → Prop
  | .awaitHook _ _ | .inHook _ _ | .returned (.ok _) => True
  | .begun | .awaitSave _ | .returned (.error _) => False

/-! ### Which ids a step touches -/

namespace Manager

/-- Nothing is changed under an id. -/
structure Same (id : Uuid) (m m' : Manager) : Prop where
  instances : m'.instances id = m.instances id
  byWorkspace : ∀ ws, id ∈ m'.byWorkspace ws ↔ id ∈ m.byWorkspace ws
  rows : m'.rows id = m.rows id

variable {id id' : Uuid} {m m' m'' : Manager}

lemma Same.refl (id : Uuid) (m : Manager) : Same id m m := ⟨rfl, fun _ => Iff.rfl, rfl⟩

/-- The maps, the index and the rows are not written. -/
lemma Same.of_eq (id : Uuid) (hinst : m'.instances = m.instances)
    (hindex : m'.byWorkspace = m.byWorkspace) (hrows : m'.rows = m.rows) : Same id m m' := by
  constructor
  · rw [hinst]
  · intro ws
    rw [hindex]
  · rw [hrows]

lemma Same.trans (h : Same id m m') (h' : Same id m' m'') : Same id m m'' where
  instances := h'.instances.trans h.instances
  byWorkspace := fun ws => (h'.byWorkspace ws).trans (h.byWorkspace ws)
  rows := h'.rows.trans h.rows

lemma same_modify (id : Uuid) (m : Manager) (inst : SharedInstance)
    (f : InstanceCell → InstanceCell) : Same id m (m.modify inst f) := Same.of_eq id rfl rfl rfl

lemma same_setInstance (hne : id' ≠ id) (m : Manager) (inst : Option SharedInstance) :
    Same id' m (m.setInstance id inst) :=
  ⟨Function.update_of_ne hne _ _, fun _ => Iff.rfl, rfl⟩

lemma same_setRow (hne : id' ≠ id) (m : Manager) (row : Option WidgetInstance) :
    Same id' m (m.setRow id row) :=
  ⟨rfl, fun _ => Iff.rfl, Function.update_of_ne hne _ _⟩

lemma mem_indexWorkspace (m : Manager) (ws ws' id id' : Uuid) :
    id' ∈ (m.indexWorkspace ws id).byWorkspace ws' ↔
      (ws' = ws ∧ id' = id) ∨ id' ∈ m.byWorkspace ws' := by
  unfold indexWorkspace
  by_cases hws : ws' = ws
  · subst hws
    simp
  · simp [hws]

lemma mem_unindexWorkspace (m : Manager) (ws ws' id id' : Uuid) :
    id' ∈ (m.unindexWorkspace ws id).byWorkspace ws' ↔
      id' ∈ m.byWorkspace ws' ∧ ¬ (ws' = ws ∧ id' = id) := by
  unfold unindexWorkspace
  by_cases hws : ws' = ws
  · subst hws
    simp [and_comm]
  · simp [hws]

lemma same_indexWorkspace (hne : id' ≠ id) (m : Manager) (ws : Uuid) :
    Same id' m (m.indexWorkspace ws id) :=
  ⟨rfl, fun ws' => by simp [mem_indexWorkspace, hne], rfl⟩

lemma same_unindexWorkspace (hne : id' ≠ id) (m : Manager) (ws : Uuid) :
    Same id' m (m.unindexWorkspace ws id) :=
  ⟨rfl, fun ws' => by simp [mem_unindexWorkspace, hne], rfl⟩

lemma same_saveInstance {inst : SharedInstance} (hne : id' ≠ inst.id) (m : Manager)
    (bytes : Bytes) (stored : Transaction) :
    Same id' m (m.saveInstance inst bytes stored).1 := by
  cases stored with
  | ok u => exact (same_modify id' m inst _).trans (same_setRow hne _ _)
  | error e => exact Same.of_eq id' rfl rfl rfl

lemma same_begin (hne : id' ≠ id) (m : Manager) (now : ℕ) (op : Operation) :
    Same id' m (m.begin now id op).1 := by
  unfold begin
  cases hinst : m.instances id with
  | none => exact Same.of_eq id' rfl rfl rfl
  | some inst =>
    cases op with
    | close => exact (same_setInstance hne m none).trans (same_unindexWorkspace hne _ _)
    | changeLifecycle target =>
      dsimp only
      split_ifs
      · exact Same.of_eq id' rfl rfl rfl
      · exact Same.of_eq id' rfl rfl rfl
      · exact Same.of_eq id' rfl rfl rfl
    | saveWidgetState => exact Same.of_eq id' rfl rfl rfl
    | assignToWorkspace ws =>
      dsimp only
      split_ifs
      · exact Same.of_eq id' rfl rfl rfl
      · exact Same.of_eq id' rfl rfl rfl
    | moveAndResize position size =>
      dsimp only
      cases m.registry inst.typeId with
      | none => exact Same.of_eq id' rfl rfl rfl
      | some descriptor =>
        dsimp only
        cases validateSize descriptor size with
        | error e => exact Same.of_eq id' rfl rfl rfl
        | ok u =>
          dsimp only
          split_ifs
          · exact Same.of_eq id' rfl rfl rfl
          · exact Same.of_eq id' rfl rfl rfl
          · exact Same.of_eq id' rfl rfl rfl

lemma same_afterHook {inst : SharedInstance} (hne : id' ≠ inst.id) {a : Answers} {b : Bool}
    {op : Operation} {p : Manager × Phase} (h : m.afterHook a inst b op = some p) :
    Same id' m p.1 := by
  cases op with
  | close =>
    simp only [afterHook] at h
    cases hhook : a.hook with
    | error e =>
      rw [hhook] at h
      obtain rfl := Option.some.inj h
      exact Same.of_eq id' rfl rfl rfl
    | ok u =>
      rw [hhook] at h
      cases hstored : a.stored with
      | ok u =>
        rw [hstored] at h
        obtain rfl := Option.some.inj h
        have herase : Same id' m { m with layoutDirty := m.layoutDirty.erase inst.id } :=
          Same.of_eq id' rfl rfl rfl
        exact herase.trans (same_setRow hne _ none)
      | error e =>
        rw [hstored] at h
        obtain rfl := Option.some.inj h
        exact Same.of_eq id' rfl rfl rfl
  | changeLifecycle target =>
    simp only [afterHook] at h
    split at h
    · obtain rfl := Option.some.inj h
      exact Same.of_eq id' rfl rfl rfl
    · obtain rfl := Option.some.inj h
      exact Same.of_eq id' rfl rfl rfl
  | moveAndResize position size =>
    simp only [afterHook] at h
    split at h
    · obtain rfl := Option.some.inj h
      exact Same.of_eq id' rfl rfl rfl
    · obtain rfl := Option.some.inj h
      exact Same.of_eq id' rfl rfl rfl
  | saveWidgetState => cases h
  | assignToWorkspace ws => cases h

lemma same_afterSave {inst : SharedInstance} (hne : id' ≠ inst.id) {a : Answers} {op : Operation}
    {p : Manager × Except WidgetError Unit} (h : m.afterSave a inst op = some p) :
    Same id' m p.1 := by
  cases op with
  | changeLifecycle target =>
    obtain rfl := Option.some.inj h
    exact same_saveInstance hne m _ a.stored
  | saveWidgetState =>
    simp only [afterSave] at h
    split at h
    · obtain rfl := Option.some.inj h
      exact Same.refl id' m
    · obtain rfl := Option.some.inj h
      exact same_saveInstance hne m _ a.stored
  | assignToWorkspace ws =>
    simp only [afterSave] at h
    split at h
    · obtain rfl := Option.some.inj h
      exact Same.refl id' m
    · obtain rfl := Option.some.inj h
      exact Same.refl id' m
    · have hne' : id' ≠ (m.rebuilt inst ws).id := hne
      have halloc : Same id' m (m.allocate inst a.now (a.saved.toOption.getD [])) :=
        Same.of_eq id' rfl rfl rfl
      have hsave : Same id' m ((m.allocate inst a.now (a.saved.toOption.getD [])).saveInstance
          (m.rebuilt inst ws) (a.saved.toOption.getD []) a.stored).1 :=
        halloc.trans (same_saveInstance hne' _ _ _)
      split at h
      next m' e heq =>
        rw [heq] at hsave
        obtain rfl := Option.some.inj h
        exact hsave
      next m' u heq =>
        rw [heq] at hsave
        obtain rfl := Option.some.inj h
        exact ((hsave.trans (same_setInstance hne _ _)).trans
          (same_unindexWorkspace hne _ _)).trans (same_indexWorkspace hne _ _)
  | close => cases h
  | moveAndResize position size => cases h

/-- A step of a call touches its own id only. -/
lemma same_advance {a : Answers} {op : Operation} {phase : Phase} {p : Manager × Phase}
    (hne : id' ≠ id) (hheld : ∀ inst, phase.inst? = some inst → inst.id = id)
    (h : m.advance a id op phase = some p) : Same id' m p.1 := by
  cases phase with
  | begun =>
    obtain rfl := Option.some.inj h
    exact same_begin hne m a.now op
  | awaitHook inst b =>
    simp only [advance] at h
    split_ifs at h
    obtain rfl := Option.some.inj h
    exact Same.of_eq id' rfl rfl rfl
  | inHook inst b =>
    have hne' : id' ≠ inst.id := (hheld inst rfl).symm ▸ hne
    have hfree : Same id' m (m.modify inst fun c => { c with locked := false }) :=
      Same.of_eq id' rfl rfl rfl
    exact hfree.trans (same_afterHook hne' h)
  | awaitSave inst =>
    have hne' : id' ≠ inst.id := (hheld inst rfl).symm ▸ hne
    simp only [advance] at h
    split_ifs at h
    obtain ⟨q, hq, rfl⟩ := Option.map_eq_some_iff.mp h
    exact same_afterSave hne' hq
  | returned r => cases h

end Manager

namespace System

/-! ### What holds under an id -/

/-- Some `close` has come back with success. -/
def Closed (s : System) (id : Uuid) : Prop :=
  ∃ t task, s.tasks t = some task ∧ task.id = id ∧ task.op = .close ∧
    task.phase = .returned (.ok ())

/-- The index agrees with the map, and what `close` takes out stays out. -/
structure Sound (s : System) (id : Uuid) : Prop where
  own : ∀ inst, s.manager.instances id = some inst → inst.id = id
  index : ∀ ws, id ∈ s.manager.byWorkspace ws ↔
    ∃ inst, s.manager.instances id = some inst ∧ inst.workspaceId = ws
  held : ∀ t task inst, s.tasks t = some task → task.id = id → task.phase.inst? = some inst →
    inst.id = id
  taken : ∀ t task, s.tasks t = some task → task.id = id → task.op = .close → task.phase.Taken →
    s.manager.instances id = none
  gone : s.Closed id → s.manager.rows id = none

variable {s s' : System} {id : Uuid} {t : ℕ} {task : Task} {p : Manager × Phase}

/-- Nothing is changed under an id, and its calls stand where they stood. -/
lemma Sound.of_same (h : s.Sound id) (hm : Manager.Same id s.manager s'.manager)
    (ht : ∀ t task, task.id = id → (s'.tasks t = some task → s.tasks t = some task)) :
    s'.Sound id where
  own := fun inst hinst => h.own inst (hm.instances.symm.trans hinst)
  index := fun ws => by rw [hm.byWorkspace, hm.instances, h.index]
  held := fun t task inst htask hid => h.held t task inst (ht t task hid htask) hid
  taken := fun t task htask hid hop hphase => by
    rw [hm.instances]
    exact h.taken t task (ht t task hid htask) hid hop hphase
  gone := by
    rintro ⟨t, task, htask, hid, hop, hphase⟩
    rw [hm.rows]
    exact h.gone ⟨t, task, ht t task hid htask, hid, hop, hphase⟩

lemma tasks_reach (t' : ℕ) : (s.reach t task p).tasks t' =
    if t' = t then some { task with phase := p.2 } else s.tasks t' := by
  simp [reach, Function.update_apply]

/-- A step of a call under its own id. -/
lemma Sound.reach (h : s.Sound task.id)
    (hown : ∀ inst, p.1.instances task.id = some inst → inst.id = task.id)
    (hindex : ∀ ws, task.id ∈ p.1.byWorkspace ws ↔
      ∃ inst, p.1.instances task.id = some inst ∧ inst.workspaceId = ws)
    (hheld : ∀ inst, p.2.inst? = some inst → inst.id = task.id)
    (htaken : s.manager.instances task.id = none ∨ (task.op = .close ∧ p.2.Taken) →
      p.1.instances task.id = none)
    (hgone : s.Closed task.id ∨ (task.op = .close ∧ p.2 = .returned (.ok ())) →
      p.1.rows task.id = none) : (s.reach t task p).Sound task.id where
  own := hown
  index := hindex
  held := by
    intro t' task' inst htask hid hinst
    rw [tasks_reach] at htask
    split_ifs at htask with heq
    · obtain rfl := Option.some.inj htask
      exact hheld inst hinst
    · exact h.held t' task' inst htask hid hinst
  taken := by
    intro t' task' htask hid hop hphase
    rw [tasks_reach] at htask
    split_ifs at htask with heq
    · obtain rfl := Option.some.inj htask
      exact htaken (Or.inr ⟨hop, hphase⟩)
    · exact htaken (Or.inl (h.taken t' task' htask hid hop hphase))
  gone := by
    rintro ⟨t', task', htask, hid, hop, hphase⟩
    rw [tasks_reach] at htask
    split_ifs at htask with heq
    · obtain rfl := Option.some.inj htask
      exact hgone (Or.inr ⟨hop, hphase⟩)
    · exact hgone (Or.inl ⟨t', task', htask, hid, hop, hphase⟩)

/-- A step that changes nothing under its id. -/
lemma Sound.reach_same (h : s.Sound task.id)
    (hm : Manager.Same task.id s.manager p.1)
    (hheld : ∀ inst, p.2.inst? = some inst → inst.id = task.id)
    (htaken : task.op = .close → p.2.Taken → s.manager.instances task.id = none)
    (hgone : task.op = .close → p.2 = .returned (.ok ()) → s.manager.rows task.id = none) :
    (s.reach t task p).Sound task.id := by
  refine h.reach ?_ ?_ hheld ?_ ?_
  · intro inst hinst
    exact h.own inst (hm.instances.symm.trans hinst)
  · intro ws
    rw [hm.byWorkspace, hm.instances, h.index]
  · rw [hm.instances]
    rintro (hnone | ⟨hop, hphase⟩)
    · exact hnone
    · exact htaken hop hphase
  · rw [hm.rows]
    rintro (hclosed | ⟨hop, hphase⟩)
    · exact h.gone hclosed
    · exact hgone hop hphase

/-- What a step may write behind an await: `close` must not have come back, and what
`assign_to_workspace` replaces must be there, in the workspace it leaves or the one it goes to. -/
def MayWrite (s : System) (id : Uuid) (a : Answers) (inst : SharedInstance) : Operation → Prop
  | .changeLifecycle _ => a.stored = .ok () → ¬ s.Closed id
  | .saveWidgetState => (∃ bytes, a.saved = .ok bytes) → a.stored = .ok () → ¬ s.Closed id
  | .assignToWorkspace ws =>
    (∃ d, s.manager.registry inst.typeId = some d) → a.made = .ok () → a.stored = .ok () →
      ∃ cur, s.manager.instances id = some cur ∧
        (cur.workspaceId = inst.workspaceId ∨ cur.workspaceId = ws)
  | .close | .moveAndResize _ _ => True

/-- A step that writes nothing back that is no longer there. -/
def Safe (s : System) : Happening → Prop
  | .step t a => ∀ task inst, s.tasks t = some task → task.phase = .awaitSave inst →
      s.MayWrite task.id a inst task.op
  | _ => True

/-! ### Steps under their own id -/

lemma sound_begin (h : s.Sound task.id) (now : ℕ) :
    (s.reach t task (s.manager.begin now task.id task.op)).Sound task.id := by
  cases hinst : s.manager.instances task.id with
  | none =>
    have hbegin : s.manager.begin now task.id task.op =
        (s.manager, .returned (.error (.instanceNotFound task.id))) := by
      unfold Manager.begin
      rw [hinst]
    rw [hbegin]
    exact h.reach_same (Manager.Same.refl _ _) (fun _ hi => by cases hi)
      (fun _ hi => absurd hi not_false) (fun _ hi => by cases hi)
  | some inst =>
    have hid := h.own inst hinst
    by_cases hop : task.op = .close
    · have hbegin : s.manager.begin now task.id task.op =
          ((s.manager.setInstance task.id none).unindexWorkspace inst.workspaceId task.id,
            .awaitHook inst false) := by
        unfold Manager.begin
        rw [hinst, hop]
      have hnone : ((s.manager.setInstance task.id none).unindexWorkspace inst.workspaceId
          task.id).instances task.id = none := Function.update_self ..
      rw [hbegin]
      refine h.reach ?_ ?_ ?_ (fun _ => hnone) ?_
      · intro i hi
        rw [hnone] at hi
        cases hi
      · intro ws
        rw [hnone, Manager.mem_unindexWorkspace]
        constructor
        · rintro ⟨hmem, hne⟩
          obtain ⟨i, hi, rfl⟩ := (h.index ws).mp hmem
          obtain rfl := Option.some.inj (hi.symm.trans hinst)
          exact absurd ⟨rfl, rfl⟩ hne
        · rintro ⟨i, hi, -⟩
          cases hi
      · intro i hi
        obtain rfl := Option.some.inj hi
        exact hid
      · rintro (hclosed | ⟨-, hp⟩)
        · exact h.gone hclosed
        · cases hp
    · have hsame : Manager.Same task.id s.manager (s.manager.begin now task.id task.op).1 ∧
          ∀ i, (s.manager.begin now task.id task.op).2.inst? = some i → i = inst := by
        unfold Manager.begin
        rw [hinst]
        cases hcase : task.op with
        | close => exact absurd hcase hop
        | changeLifecycle target =>
          dsimp only
          split_ifs
          · exact ⟨Manager.Same.refl _ _, fun i hi => (Option.some.inj hi).symm⟩
          · exact ⟨Manager.Same.refl _ _, fun i hi => (Option.some.inj hi).symm⟩
          · exact ⟨Manager.Same.refl _ _, fun i hi => by cases hi⟩
        | saveWidgetState => exact ⟨Manager.Same.refl _ _, fun i hi => (Option.some.inj hi).symm⟩
        | assignToWorkspace ws =>
          dsimp only
          split_ifs
          · exact ⟨Manager.Same.refl _ _, fun i hi => by cases hi⟩
          · exact ⟨Manager.Same.refl _ _, fun i hi => (Option.some.inj hi).symm⟩
        | moveAndResize position size =>
          dsimp only
          cases s.manager.registry inst.typeId with
          | none => exact ⟨Manager.Same.refl _ _, fun i hi => by cases hi⟩
          | some descriptor =>
            dsimp only
            cases validateSize descriptor size with
            | error e => exact ⟨Manager.Same.refl _ _, fun i hi => by cases hi⟩
            | ok u =>
              dsimp only
              split_ifs
              · exact ⟨Manager.Same.refl _ _, fun i hi => by cases hi⟩
              · exact ⟨Manager.Same.of_eq _ rfl rfl rfl, fun i hi => by cases hi⟩
              · exact ⟨Manager.Same.refl _ _, fun i hi => (Option.some.inj hi).symm⟩
      refine h.reach_same hsame.1 ?_ (fun hc => absurd hc hop) (fun hc => absurd hc hop)
      intro i hi
      rw [hsame.2 i hi, hid]

lemma sound_afterHook {m : Manager} {a : Answers} {inst : SharedInstance} {b : Bool}
    (h : s.Sound task.id) (hm : Manager.Same task.id s.manager m) (hid : inst.id = task.id)
    (hnone : task.op = .close → s.manager.instances task.id = none)
    (hp : m.afterHook a inst b task.op = some p) : (s.reach t task p).Sound task.id := by
  cases hop : task.op with
  | close =>
    have hm' : Manager.Same task.id s.manager
        { m with layoutDirty := m.layoutDirty.erase inst.id } :=
      hm.trans (Manager.Same.of_eq _ rfl rfl rfl)
    have hno := hnone hop
    rw [hop] at hp
    simp only [Manager.afterHook] at hp
    split at hp
    · obtain rfl := Option.some.inj hp
      exact h.reach_same hm (fun _ hi => by cases hi) (fun _ hi => absurd hi not_false)
        (fun _ hi => by cases hi)
    · split at hp
      · obtain rfl := Option.some.inj hp
        have hrow : (Manager.setRow { m with layoutDirty := m.layoutDirty.erase inst.id }
            inst.id none).rows task.id = none := by
          rw [← hid]
          exact Function.update_self ..
        refine h.reach ?_ ?_ (fun _ hi => by cases hi) ?_ (fun _ => hrow)
        · intro i hi
          exact h.own i (hm'.instances.symm.trans hi)
        · intro ws
          refine ((hm'.byWorkspace ws).trans (h.index ws)).trans ?_
          show _ ↔ ∃ i, m.instances task.id = some i ∧ _
          rw [hm.instances]
        · intro _
          exact hm'.instances.trans hno
      · obtain rfl := Option.some.inj hp
        exact h.reach_same hm' (fun _ hi => by cases hi) (fun _ hi => absurd hi not_false)
          (fun _ hi => by cases hi)
  | changeLifecycle target =>
    have hne : task.op ≠ .close := by
      rw [hop]
      exact fun hc => by cases hc
    rw [hop] at hp
    simp only [Manager.afterHook] at hp
    split at hp
    · obtain rfl := Option.some.inj hp
      exact h.reach_same hm (fun _ hi => by cases hi) (fun hc => absurd hc hne)
        (fun hc => absurd hc hne)
    · obtain rfl := Option.some.inj hp
      refine h.reach_same (hm.trans (Manager.Same.of_eq _ rfl rfl rfl)) ?_
        (fun hc => absurd hc hne) (fun hc => absurd hc hne)
      intro i hi
      obtain rfl := Option.some.inj hi
      exact hid
  | moveAndResize position size =>
    have hne : task.op ≠ .close := by
      rw [hop]
      exact fun hc => by cases hc
    rw [hop] at hp
    simp only [Manager.afterHook] at hp
    split at hp
    · obtain rfl := Option.some.inj hp
      exact h.reach_same hm (fun _ hi => by cases hi) (fun hc => absurd hc hne)
        (fun hc => absurd hc hne)
    · obtain rfl := Option.some.inj hp
      exact h.reach_same (hm.trans (Manager.Same.of_eq _ rfl rfl rfl)) (fun _ hi => by cases hi)
        (fun hc => absurd hc hne) (fun hc => absurd hc hne)
  | saveWidgetState =>
    rw [hop] at hp
    cases hp
  | assignToWorkspace ws =>
    rw [hop] at hp
    cases hp

/-- A row is saved. -/
lemma sound_saveInstance {inst : SharedInstance} {bytes : Bytes} {stored : Transaction}
    (h : s.Sound task.id) (hne : task.op ≠ .close)
    (hwrite : stored = .ok () → ¬ s.Closed task.id) (result : Except WidgetError Unit) :
    (s.reach t task ((s.manager.saveInstance inst bytes stored).1, .returned result)).Sound
      task.id := by
  cases stored with
  | ok u =>
    refine h.reach h.own h.index (fun _ hi => by cases hi) ?_ ?_
    · rintro (hnone | ⟨hop, -⟩)
      · exact hnone
      · exact absurd hop hne
    · rintro (hclosed | ⟨hop, -⟩)
      · exact absurd hclosed (hwrite rfl)
      · exact absurd hop hne
  | error e =>
    exact h.reach_same (Manager.Same.of_eq _ rfl rfl rfl) (fun _ hi => by cases hi)
      (fun hc => absurd hc hne) (fun hc => absurd hc hne)

lemma sound_afterSave {a : Answers} {inst : SharedInstance} {q : Manager × Except WidgetError Unit}
    (h : s.Sound task.id) (hid : inst.id = task.id)
    (hw : s.MayWrite task.id a inst task.op)
    (hq : s.manager.afterSave a inst task.op = some q) :
    (s.reach t task (q.1, .returned q.2)).Sound task.id := by
  cases hop : task.op with
  | changeLifecycle target =>
    rw [hop] at hq hw
    obtain rfl := Option.some.inj hq
    exact sound_saveInstance h (by simp [hop]) hw _
  | saveWidgetState =>
    have hne : task.op ≠ .close := by simp [hop]
    rw [hop] at hq hw
    simp only [Manager.afterSave] at hq
    split at hq
    · obtain rfl := Option.some.inj hq
      exact h.reach_same (Manager.Same.refl _ _) (fun _ hi => by cases hi)
        (fun hc => absurd hc hne) (fun hc => absurd hc hne)
    next bytes hbytes =>
      obtain rfl := Option.some.inj hq
      exact sound_saveInstance h hne (hw ⟨bytes, hbytes⟩) _
  | assignToWorkspace ws =>
    have hne : task.op ≠ .close := by simp [hop]
    rw [hop] at hq hw
    simp only [Manager.afterSave] at hq
    split at hq
    · obtain rfl := Option.some.inj hq
      exact h.reach_same (Manager.Same.refl _ _) (fun _ hi => by cases hi)
        (fun hc => absurd hc hne) (fun hc => absurd hc hne)
    · obtain rfl := Option.some.inj hq
      exact h.reach_same (Manager.Same.refl _ _) (fun _ hi => by cases hi)
        (fun hc => absurd hc hne) (fun hc => absurd hc hne)
    next d u hd hmade =>
      cases hstored : a.stored with
      | error e =>
        rw [hstored] at hq
        obtain rfl := Option.some.inj hq
        exact h.reach_same (Manager.Same.of_eq _ rfl rfl rfl) (fun _ hi => by cases hi)
          (fun hc => absurd hc hne) (fun hc => absurd hc hne)
      | ok u =>
        obtain ⟨cur, hcur, hws⟩ := hw ⟨d, hd⟩ hmade hstored
        rw [hstored] at hq
        obtain rfl := Option.some.inj hq
        have hsome : (Function.update s.manager.instances inst.id
            (some (s.manager.rebuilt inst ws))) task.id = some (s.manager.rebuilt inst ws) := by
          rw [hid]
          exact Function.update_self ..
        refine h.reach ?_ ?_ (fun _ hi => by cases hi) ?_ ?_
        · intro i hi
          obtain rfl := Option.some.inj (hsome.symm.trans hi)
          exact hid
        · intro ws'
          have hold : task.id ∈ s.manager.byWorkspace ws' ↔ cur.workspaceId = ws' := by
            rw [h.index, hcur]
            simp
          constructor
          · intro hmem
            rcases (Manager.mem_indexWorkspace _ _ _ _ _).mp hmem with ⟨rfl, -⟩ | hmem
            · exact ⟨_, hsome, rfl⟩
            · obtain ⟨hmem, hnot⟩ := (Manager.mem_unindexWorkspace _ _ _ _ _).mp hmem
              have hcurws := hold.mp hmem
              rcases hws with hws | hws
              · exact absurd ⟨hcurws.symm.trans hws, hid.symm⟩ hnot
              · exact ⟨_, hsome, hws.symm.trans hcurws⟩
          · rintro ⟨i, hi, rfl⟩
            obtain rfl := Option.some.inj (hsome.symm.trans hi)
            exact (Manager.mem_indexWorkspace _ _ _ _ _).mpr (Or.inl ⟨rfl, hid.symm⟩)
        · rintro (hnone | ⟨hc, -⟩)
          · rw [hcur] at hnone
            cases hnone
          · exact absurd hc hne
        · rintro (⟨t', task', ht', hid', hop', hphase⟩ | ⟨hc, -⟩)
          · have hnone := h.taken t' task' ht' hid' hop' (by rw [hphase]; trivial)
            rw [hcur] at hnone
            cases hnone
          · exact absurd hc hne
  | close =>
    rw [hop] at hq
    cases hq
  | moveAndResize position size =>
    rw [hop] at hq
    cases hq

lemma sound_advance {a : Answers} (h : s.Sound task.id) (ht : s.tasks t = some task)
    (hw : ∀ inst, task.phase = .awaitSave inst → s.MayWrite task.id a inst task.op)
    (hp : s.manager.advance a task.id task.op task.phase = some p) :
    (s.reach t task p).Sound task.id := by
  cases hphase : task.phase with
  | begun =>
    rw [hphase] at hp
    obtain rfl := Option.some.inj hp
    exact sound_begin h a.now
  | awaitHook inst b =>
    have hid := h.held t task inst ht rfl (by rw [hphase]; rfl)
    have htaken : task.op = .close → s.manager.instances task.id = none := fun hop =>
      h.taken t task ht rfl hop (by rw [hphase]; trivial)
    rw [hphase] at hp
    simp only [Manager.advance] at hp
    split_ifs at hp
    obtain rfl := Option.some.inj hp
    refine h.reach_same (Manager.Same.of_eq _ rfl rfl rfl) ?_ (fun hop _ => htaken hop)
      (fun _ hi => by cases hi)
    intro i hi
    obtain rfl := Option.some.inj hi
    exact hid
  | inHook inst b =>
    have hid := h.held t task inst ht rfl (by rw [hphase]; rfl)
    have htaken : task.op = .close → s.manager.instances task.id = none := fun hop =>
      h.taken t task ht rfl hop (by rw [hphase]; trivial)
    rw [hphase] at hp
    simp only [Manager.advance] at hp
    have hm : Manager.Same task.id s.manager
        (s.manager.modify inst fun c => { c with locked := false }) :=
      Manager.Same.of_eq _ rfl rfl rfl
    exact sound_afterHook h hm hid htaken hp
  | awaitSave inst =>
    have hid := h.held t task inst ht rfl (by rw [hphase]; rfl)
    have hw' := hw inst hphase
    rw [hphase] at hp
    simp only [Manager.advance] at hp
    split_ifs at hp
    obtain ⟨q, hq, rfl⟩ := Option.map_eq_some_iff.mp hp
    exact sound_afterSave h hid hw' hq
  | returned r =>
    rw [hphase] at hp
    cases hp

/-! ### Steps of the system -/

lemma sound_flush {id : Uuid} (h : s.Sound id) (stored : Transaction) :
    ({ s with manager := s.manager.flushLayoutSaves stored } : System).Sound id where
  own := by
    cases stored with
    | ok u => exact h.own
    | error e => exact h.own
  index := by
    cases stored with
    | ok u => exact h.index
    | error e => exact h.index
  held := h.held
  taken := by
    cases stored with
    | ok u => exact h.taken
    | error e => exact h.taken
  gone := by
    intro hclosed
    have hrow : s.manager.rows id = none := h.gone hclosed
    obtain ⟨t, task, ht, hid, hop, hphase⟩ := hclosed
    have hnone := h.taken t task ht hid hop (by rw [hphase]; trivial)
    cases stored with
    | ok u =>
      show (if id ∈ s.manager.layoutDirty then _ else s.manager.rows id) = none
      split_ifs
      · simp [hnone, hrow]
      · exact hrow
    | error e => exact hrow

lemma sound_call {id id' : Uuid} {op : Operation} (h : s.Sound id) :
    ({ s with tasks := Function.update s.tasks t (some ⟨id', op, .begun⟩) } : System).Sound id := by
  have htask : ∀ t' task, Function.update s.tasks t (some ⟨id', op, .begun⟩) t' = some task →
      s.tasks t' = some task ∨ task.phase = .begun := by
    intro t' task ht'
    rw [Function.update_apply] at ht'
    split_ifs at ht' with heq
    · obtain rfl := Option.some.inj ht'
      exact Or.inr rfl
    · exact Or.inl ht'
  constructor
  · exact h.own
  · exact h.index
  · intro t' task inst ht' hid hinst
    rcases htask t' task ht' with ht' | hbegun
    · exact h.held t' task inst ht' hid hinst
    · rw [hbegun] at hinst
      cases hinst
  · intro t' task ht' hid hop hphase
    rcases htask t' task ht' with ht' | hbegun
    · exact h.taken t' task ht' hid hop hphase
    · rw [hbegun] at hphase
      exact absurd hphase not_false
  · rintro ⟨t', task, ht', hid, hop, hphase⟩
    rcases htask t' task ht' with ht' | hbegun
    · exact h.gone ⟨t', task, ht', hid, hop, hphase⟩
    · rw [hbegun] at hphase
      cases hphase

lemma same_enter {id : Uuid} {inst : SharedInstance} {cell : InstanceCell} {created : Bool}
    (hne : id ≠ inst.id) (m : Manager) : Manager.Same id m (enter m inst cell created) := by
  unfold enter
  cases created with
  | true =>
    have hcell : Manager.Same id m { m with
        cells := Function.update m.cells inst.cell cell, allocated := m.allocated + 1 } :=
      Manager.Same.of_eq id rfl rfl rfl
    exact ((hcell.trans (Manager.same_setRow hne _ _)).trans
      (Manager.same_setInstance hne _ _)).trans (Manager.same_indexWorkspace hne _ _)
  | false =>
    have hcell : Manager.Same id m { m with
        cells := Function.update m.cells inst.cell cell, allocated := m.allocated + 1 } :=
      Manager.Same.of_eq id rfl rfl rfl
    exact (hcell.trans (Manager.same_setInstance hne _ _)).trans
      (Manager.same_indexWorkspace hne _ _)

lemma sound_enter {inst : SharedInstance} {cell : InstanceCell} {created : Bool}
    (h : s.Sound inst.id) (hfresh : s.Fresh inst) :
    ({ s with manager := enter s.manager inst cell created } : System).Sound inst.id := by
  obtain ⟨hnone, -, htasks⟩ := hfresh
  have hsome : (enter s.manager inst cell created).instances inst.id = some inst :=
    Function.update_self ..
  have hindex : ∀ ws, inst.id ∈ (enter s.manager inst cell created).byWorkspace ws ↔
      ws = inst.workspaceId ∨ inst.id ∈ s.manager.byWorkspace ws := by
    intro ws
    unfold enter
    rw [Manager.mem_indexWorkspace]
    cases created <;> simp [Manager.setInstance, Manager.setRow]
  constructor
  · intro i hi
    obtain rfl := Option.some.inj (hsome.symm.trans hi)
    rfl
  · intro ws
    rw [hindex, h.index]
    dsimp only
    rw [hnone, hsome]
    simp [eq_comm]
  · intro t task i ht hid _
    exact absurd hid (htasks t task ht)
  · intro t task ht hid _ _
    exact absurd hid (htasks t task ht)
  · rintro ⟨t, task, ht, hid, -⟩
    exact absurd hid (htasks t task ht)

/-- A safe step keeps what holds under every id. -/
lemma sound_next {e : Happening} (h : ∀ id, s.Sound id) (hsafe : s.Safe e) (hnext : s.Next e s')
    (id : Uuid) : s'.Sound id := by
  cases hnext with
  | @enter inst cell created hfresh =>
    by_cases hid : id = inst.id
    · rw [hid]
      exact sound_enter (h inst.id) hfresh
    · exact (h id).of_same (same_enter hid s.manager) fun _ _ _ ht => ht
  | call ht => exact sound_call (h id)
  | @step t a task p ht hp =>
    by_cases hid : id = task.id
    · rw [hid]
      exact sound_advance (h task.id) ht (fun inst hphase => hsafe task inst ht hphase) hp
    · refine (h id).of_same ?_ ?_
      · refine Manager.same_advance hid ?_ hp
        intro inst hinst
        exact (h task.id).held t task inst ht rfl hinst
      · intro t' task' hid' ht'
        rw [tasks_reach] at ht'
        split_ifs at ht' with heq
        · obtain rfl := Option.some.inj ht'
          exact absurd hid'.symm hid
        · exact ht'
  | flush => exact sound_flush (h id) _

/-! ### Runs -/

/-- The manager of a new process, over any store. -/
def new (registry : Text → Option WidgetDescriptor) (rows : Uuid → Option WidgetInstance) :
    System := ⟨{ registry, rows }, fun _ => none⟩

lemma sound_new (registry : Text → Option WidgetDescriptor)
    (rows : Uuid → Option WidgetInstance) (id : Uuid) : (new registry rows).Sound id where
  own := fun _ hi => by cases hi
  index := fun ws => by simp [new]
  held := fun _ _ _ ht => by cases ht
  taken := fun _ _ ht => by cases ht
  gone := fun ⟨_, _, ht, _⟩ => by cases ht

/-- Every call under an id has come back. -/
def AllReturned (s : System) (id : Uuid) : Prop :=
  ∀ t task, s.tasks t = some task → task.id = id → ∃ result, task.phase = .returned result

/-- Nothing is recorded under an id. -/
def Absent (s : System) (id : Uuid) : Prop :=
  s.manager.instances id = none ∧ (∀ ws, id ∉ s.manager.byWorkspace ws) ∧
    s.manager.rows id = none

/-- In every run of safe steps nothing is recorded under an id once `close` has come back with
success. -/
theorem closed_stays_closed (registry : Text → Option WidgetDescriptor)
    (rows : Uuid → Option WidgetInstance) (s : System) (id : Uuid)
    (hrun : Relation.ReflTransGen (fun s s' => ∃ e, s.Safe e ∧ s.Next e s') (new registry rows) s)
    (hclosed : s.Closed id) : s.Absent id := by
  have hsound : ∀ id, s.Sound id := by
    clear hclosed
    induction hrun with
    | refl => exact sound_new registry rows
    | tail _ hstep ih =>
      obtain ⟨e, hsafe, hnext⟩ := hstep
      exact sound_next ih hsafe hnext
  have h := hsound id
  have hrow := h.gone hclosed
  obtain ⟨t, task, ht, hid, hop, hphase⟩ := hclosed
  have hnone := h.taken t task ht hid hop (by rw [hphase]; trivial)
  refine ⟨hnone, fun ws hmem => ?_, hrow⟩
  obtain ⟨inst, hinst, -⟩ := (h.index ws).mp hmem
  rw [hnone] at hinst
  cases hinst

/-! ### Two runs -/

/-- A widget without a type on workspace 5. -/
def someInstance : SharedInstance := ⟨1, 5, [], 0, 0⟩

/-- Everything succeeds. -/
def success : Answers := ⟨0, .ok (), .ok [], .ok (), .ok ()⟩

/-- What a step of a call leads to; nothing happens if the call cannot take one. -/
def step (s : System) (t : ℕ) : System :=
  match s.tasks t with
  | none => s
  | some task =>
    match s.manager.advance success task.id task.op task.phase with
    | none => s
    | some p => s.reach t task p

/-- A call begins. -/
def call (s : System) (t : ℕ) (op : Operation) : System :=
  { s with tasks := Function.update s.tasks t (some ⟨1, op, .begun⟩) }

/-- The system with the widget. -/
def withInstance : System :=
  let s := new (fun _ => none) fun _ => none
  { s with manager := enter s.manager someInstance {} true }

lemma next_step {s : System} {t : ℕ} (ht : (s.tasks t).isSome)
    (hp : ∀ task, s.tasks t = some task →
      (s.manager.advance success task.id task.op task.phase).isSome) :
    s.Next (.step t success) (s.step t) := by
  obtain ⟨task, htask⟩ := Option.isSome_iff_exists.mp ht
  obtain ⟨p, hadv⟩ := Option.isSome_iff_exists.mp (hp task htask)
  have heq : s.step t = s.reach t task p := by
    unfold step
    rw [htask]
    dsimp only
    rw [hadv]
  rw [heq]
  exact .step htask hadv

lemma tasks_step_of_ne (s : System) {t t' : ℕ} (h : t' ≠ t) :
    (s.step t).tasks t' = s.tasks t' := by
  unfold step
  split
  · rfl
  · split
    · rfl
    · rw [tasks_reach, if_neg h]

lemma tasks_call_of_ne (s : System) {t t' : ℕ} (h : t' ≠ t) (op : Operation) :
    (s.call t op).tasks t' = s.tasks t' := Function.update_of_ne h _ _

lemma next_withInstance :
    (new (fun _ => none) fun _ => none).Next (.enter someInstance {} true) withInstance :=
  .enter ⟨rfl, rfl, fun _ _ ht => by cases ht⟩

/-- A change of the lifecycle is about to be saved while the widget is being closed. -/
def beforeSave : System :=
  ((((((withInstance.call 0 (.changeLifecycle .sleeping)).step 0).step 0).call 1 .close).step
    1).step 0)

lemma not_closed_beforeSave : ¬ beforeSave.Closed 1 := by
  rintro ⟨t, task, ht, -, hop, hphase⟩
  by_cases h0 : t = 0
  · subst h0
    obtain rfl := Option.some.inj ht
    cases hop
  · by_cases h1 : t = 1
    · subst h1
      obtain rfl := Option.some.inj ht
      cases hphase
    · have hnone : beforeSave.tasks t = none := by
        unfold beforeSave
        simp only [tasks_step_of_ne _ h0, tasks_step_of_ne _ h1, tasks_call_of_ne _ h0,
          tasks_call_of_ne _ h1]
        rfl
      rw [hnone] at ht
      cases ht

theorem closed_stays_closed_saved : (((beforeSave.step 0).step 1).step 1).Absent 1 := by
  refine closed_stays_closed (fun _ => none) (fun _ => none) _ 1 ?_ ⟨1, _, rfl, rfl, rfl, rfl⟩
  refine (((((((((Relation.ReflTransGen.single
    ⟨.enter someInstance {} true, trivial, next_withInstance⟩).tail
    ⟨.call 0 1 (.changeLifecycle .sleeping), trivial, .call rfl⟩).tail
    ⟨.step 0 success, ?_, next_step rfl ?_⟩).tail ⟨.step 0 success, ?_, next_step rfl ?_⟩).tail
    ⟨.call 1 1 .close, trivial, .call rfl⟩).tail ⟨.step 1 success, ?_, next_step rfl ?_⟩).tail
    ⟨.step 0 success, ?_, next_step rfl ?_⟩).tail ⟨.step 0 success, ?_, next_step rfl ?_⟩).tail
    ⟨.step 1 success, ?_, next_step rfl ?_⟩).tail ⟨.step 1 success, ?_, next_step rfl ?_⟩
  all_goals
    intro task
    first
    | intro inst htask hphase
      obtain rfl := Option.some.inj htask
      cases hphase
      try exact fun _ => not_closed_beforeSave
    | intro htask
      obtain rfl := Option.some.inj htask
      rfl

/-- A change of the lifecycle that waits for the lock of the widget while it is closed. -/
def lateSave : System :=
  (((((((((withInstance.call 0 (.changeLifecycle .sleeping)).step 0).step 0).call 1 .close).step
    1).step 0).step 1).step 1).step 0)

/-- The row of the closed widget is written again. -/
theorem not_closed_stays_closed :
    ¬ ∀ (registry : Text → Option WidgetDescriptor) (rows : Uuid → Option WidgetInstance)
      (s : System) (id : Uuid),
      Relation.ReflTransGen (fun s s' => ∃ e, s.Next e s') (new registry rows) s →
        s.Closed id → s.AllReturned id → s.Absent id := by
  intro h
  have hrun : Relation.ReflTransGen (fun s s' => ∃ e, System.Next s e s')
      (new (fun _ => none) fun _ => none) lateSave := by
    refine (((((((((Relation.ReflTransGen.single
      ⟨.enter someInstance {} true, next_withInstance⟩).tail
      ⟨.call 0 1 (.changeLifecycle .sleeping), .call rfl⟩).tail
      ⟨.step 0 success, next_step rfl ?_⟩).tail ⟨.step 0 success, next_step rfl ?_⟩).tail
      ⟨.call 1 1 .close, .call rfl⟩).tail ⟨.step 1 success, next_step rfl ?_⟩).tail
      ⟨.step 0 success, next_step rfl ?_⟩).tail ⟨.step 1 success, next_step rfl ?_⟩).tail
      ⟨.step 1 success, next_step rfl ?_⟩).tail ⟨.step 0 success, next_step rfl ?_⟩
    all_goals
      intro task htask
      obtain rfl := Option.some.inj htask
      rfl
  have hall : lateSave.AllReturned 1 := by
    intro t task ht _
    by_cases h0 : t = 0
    · subst h0
      obtain rfl := Option.some.inj ht
      exact ⟨.ok (), rfl⟩
    · by_cases h1 : t = 1
      · subst h1
        obtain rfl := Option.some.inj ht
        exact ⟨.ok (), rfl⟩
      · have hnone : lateSave.tasks t = none := by
          unfold lateSave
          simp only [tasks_step_of_ne _ h0, tasks_step_of_ne _ h1, tasks_call_of_ne _ h0,
            tasks_call_of_ne _ h1]
          rfl
        rw [hnone] at ht
        cases ht
  have habsent := h (fun _ => none) (fun _ => none) lateSave 1 hrun
    ⟨1, _, rfl, rfl, rfl, rfl⟩ hall
  have hrow : (lateSave.manager.rows 1).isSome = true := rfl
  rw [habsent.2.2] at hrow
  cases hrow

end System

end Orchid.Widgets
