import Mathlib.Logic.Relation
import Orchid.Widgets.Group

/-!
# Groups and their indexes

`Consistent` says that the two indexes hold exactly what the groups record, so that an instance is
in at most one group. Nothing in the manager moves an instance out of the group it is in when it is
put into another; a call keeps the indexes right if it does not ask for that (`Respects`).
-/

namespace Orchid.Widgets

open Lib Relation

/-! ### Members of a group -/

namespace WidgetGroup

@[simp] lemma mem_addMember (g : WidgetGroup) (i j : Uuid) :
    j ∈ (g.addMember i).members ↔ j ∈ g.members ∨ j = i := by
  unfold addMember
  split_ifs with h
  · exact ⟨Or.inl, fun hj => hj.elim (fun hj => hj) fun heq => heq ▸ h⟩
  · simp

@[simp] lemma id_addMember (g : WidgetGroup) (i : Uuid) : (g.addMember i).id = g.id := by
  unfold addMember
  split_ifs <;> rfl

@[simp] lemma workspaceId_addMember (g : WidgetGroup) (i : Uuid) :
    (g.addMember i).workspaceId = g.workspaceId := by
  unfold addMember
  split_ifs <;> rfl

lemma foldl_addMember (members : List Uuid) (g : WidgetGroup) :
    (members.foldl addMember g).id = g.id ∧
    (members.foldl addMember g).workspaceId = g.workspaceId ∧
    ∀ j, j ∈ (members.foldl addMember g).members ↔ j ∈ g.members ∨ j ∈ members := by
  induction members generalizing g with
  | nil => simp
  | cons i members ih =>
    obtain ⟨hid, hws, hmem⟩ := ih (g.addMember i)
    refine ⟨by simpa using hid, by simpa using hws, fun j => ?_⟩
    rw [List.foldl_cons, hmem, mem_addMember, List.mem_cons, or_assoc]

/-- What an operation on one group leaves as it is. -/
structure SameSlot (g g' : WidgetGroup) : Prop where
  id : g'.id = g.id
  workspaceId : g'.workspaceId = g.workspaceId

lemma removeMember_spec {g g' : WidgetGroup} {i : Uuid} (h : g.removeMember i = .ok g') :
    SameSlot g g' ∧ i ∈ g.members ∧ ∀ j, j ∈ g'.members ↔ j ∈ g.members ∧ j ≠ i := by
  unfold removeMember at h
  split_ifs at h with hi
  rw [← Except.ok.inj h]
  refine ⟨⟨rfl, rfl⟩, hi, fun j => ?_⟩
  rw [g.nodup.mem_erase_iff, and_comm]

lemma activate_spec {g g' : WidgetGroup} {i : Uuid} (h : g.activate i = .ok g') :
    SameSlot g g' ∧ g'.members = g.members := by
  unfold activate at h
  cases hf : g.members.findIdx? fun m => m = i with
  | none => simp [hf] at h
  | some idx =>
    rw [hf] at h
    rw [← Except.ok.inj h]
    exact ⟨⟨rfl, rfl⟩, rfl⟩

lemma reorder_spec {g g' : WidgetGroup} {src dst : ℕ} (h : g.reorder src dst = .ok g') :
    SameSlot g g' ∧ ∀ j, j ∈ g'.members ↔ j ∈ g.members := by
  unfold reorder at h
  split_ifs at h with hlen
  rw [← Except.ok.inj h]
  refine ⟨⟨rfl, rfl⟩, fun j => ?_⟩
  exact (moveMember_perm g.members src dst (by omega)).mem_iff

end WidgetGroup

open WidgetGroup

namespace GroupManager

/-! ### The indexes -/

/-- The indexes hold exactly what the groups record. -/
structure Consistent (s : GroupManager) : Prop where
  atMostOne : ∀ g ∈ s.groups, ∀ g' ∈ s.groups, ∀ i, i ∈ g.members → i ∈ g'.members → g = g'
  byInstance : ∀ i gid, s.byInstance.lookup i = some gid ↔
    ∃ g ∈ s.groups, g.id = gid ∧ i ∈ g.members
  byWorkspace : ∀ ws gid, gid ∈ (s.byWorkspace.lookup ws).getD ∅ ↔
    ∃ g ∈ s.groups, g.id = gid ∧ g.workspaceId = ws

lemma lookup_foldl_insert (members : List Uuid) (m : Finmap fun _ : Uuid => Uuid)
    (gid i : Uuid) :
    (members.foldl (fun m member => m.insert member gid) m).lookup i =
      if i ∈ members then some gid else m.lookup i := by
  induction members generalizing m with
  | nil => simp
  | cons j members ih =>
    rw [List.foldl_cons, ih]
    by_cases hij : i = j
    · subst hij
      simp
    · simp [hij, Finmap.lookup_insert_of_ne]

lemma lookup_foldl_erase (members : List Uuid) (m : Finmap fun _ : Uuid => Uuid) (gid i : Uuid) :
    (members.foldl (fun m member => if m.lookup member = some gid then m.erase member else m)
        m).lookup i =
      if i ∈ members ∧ m.lookup i = some gid then none else m.lookup i := by
  induction members generalizing m with
  | nil => simp
  | cons j members ih =>
    rw [List.foldl_cons, ih]
    by_cases hij : i = j
    · subst hij
      by_cases hm : m.lookup i = some gid
      · simp [hm]
      · simp [hm]
    · by_cases hm : m.lookup j = some gid
      · simp [hm, hij, Finmap.lookup_erase_ne]
      · simp [hm, hij]

/-- The manager at the start, over any store. -/
lemma consistent_new (storage : KeyedMap WidgetGroup.id) : Consistent (new storage) where
  atMostOne := fun g hg => absurd hg (KeyedMap.mem_empty g)
  byInstance := fun i gid => by simp [new]
  byWorkspace := fun ws gid => by simp [new]

/-- The indexes do not look at the store or the events. -/
lemma Consistent.of_same {s s' : GroupManager} (h : Consistent s) (hg : s'.groups = s.groups)
    (hi : s'.byInstance = s.byInstance) (hw : s'.byWorkspace = s.byWorkspace) :
    Consistent s' where
  atMostOne := hg ▸ h.atMostOne
  byInstance := by rw [hg, hi]; exact h.byInstance
  byWorkspace := by rw [hg, hw]; exact h.byWorkspace

/-- One group is replaced: the index by instance has to follow its members. -/
lemma Consistent.replace {s s' : GroupManager} (h : Consistent s) {g g' : WidgetGroup}
    (hg : g ∈ s.groups) (hsame : SameSlot g g') (hgroups : s'.groups = s.groups.insert g')
    (hw : s'.byWorkspace = s.byWorkspace)
    (hapart : ∀ i ∈ g'.members, ∀ o ∈ s.groups, i ∈ o.members → o.id = g.id)
    (hindex : ∀ i, s'.byInstance.lookup i =
      if i ∈ g'.members then some g.id
      else if i ∈ g.members then none else s.byInstance.lookup i) : Consistent s' := by
  have hmem : ∀ o, o ∈ s'.groups ↔ o = g' ∨ (o ∈ s.groups ∧ o.id ≠ g.id) := by
    intro o
    rw [hgroups, KeyedMap.mem_insert_iff, hsame.id]
  have honly : ∀ o ∈ s'.groups, ∀ i ∈ o.members, i ∈ g'.members → o = g' := by
    intro o ho i hio hi
    rcases (hmem o).mp ho with rfl | ⟨ho, hne⟩
    · rfl
    · exact absurd (hapart i hi o ho hio) hne
  constructor
  · intro o ho o' ho' i hi hi'
    rcases (hmem o).mp ho with rfl | ⟨hos, -⟩
    · exact (honly o' ho' i hi' hi).symm
    · rcases (hmem o').mp ho' with rfl | ⟨hos', -⟩
      · exact honly o ho i hi hi'
      · exact h.atMostOne o hos o' hos' i hi hi'
  · intro i gid
    rw [hindex]
    split_ifs with hi hig
    · constructor
      · intro heq
        exact ⟨g', (hmem g').mpr (Or.inl rfl), hsame.id.trans (Option.some.inj heq), hi⟩
      · rintro ⟨o, ho, rfl, hio⟩
        rw [honly o ho i hio hi, hsame.id]
    · constructor
      · intro heq
        simp at heq
      · rintro ⟨o, ho, rfl, hio⟩
        rcases (hmem o).mp ho with rfl | ⟨ho, hne⟩
        · exact absurd hio hi
        · exact absurd (congrArg WidgetGroup.id (h.atMostOne o ho g hg i hio hig)) hne
    · rw [h.byInstance]
      constructor
      · rintro ⟨o, ho, rfl, hio⟩
        refine ⟨o, (hmem o).mpr (Or.inr ⟨ho, fun heq => hig ?_⟩), rfl, hio⟩
        exact KeyedMap.eq_of_key_eq ho hg heq ▸ hio
      · rintro ⟨o, ho, rfl, hio⟩
        rcases (hmem o).mp ho with rfl | ⟨ho, -⟩
        · exact absurd hio hi
        · exact ⟨o, ho, rfl, hio⟩
  · intro ws gid
    rw [hw, h.byWorkspace]
    constructor
    · rintro ⟨o, ho, rfl, hows⟩
      by_cases heq : o.id = g.id
      · obtain rfl : o = g := KeyedMap.eq_of_key_eq ho hg heq
        exact ⟨g', (hmem g').mpr (Or.inl rfl), hsame.id, hsame.workspaceId.trans hows⟩
      · exact ⟨o, (hmem o).mpr (Or.inr ⟨ho, heq⟩), rfl, hows⟩
    · rintro ⟨o, ho, rfl, hows⟩
      rcases (hmem o).mp ho with rfl | ⟨ho, -⟩
      · exact ⟨g, hg, hsame.id.symm, hsame.workspaceId.symm.trans hows⟩
      · exact ⟨o, ho, rfl, hows⟩

/-- A group can be loaded: its members are in no other group, and it takes over those of the group
it replaces. -/
structure Loadable (s : GroupManager) (g : WidgetGroup) : Prop where
  apart : ∀ i ∈ g.members, ∀ o ∈ s.groups, i ∈ o.members → o.id = g.id
  replaced : ∀ o ∈ s.groups, o.id = g.id → o.workspaceId = g.workspaceId ∧ o.members ⊆ g.members

lemma mem_groups_load (s : GroupManager) (g o : WidgetGroup) :
    o ∈ (s.load g).groups ↔ o = g ∨ (o ∈ s.groups ∧ o.id ≠ g.id) :=
  KeyedMap.mem_insert_iff s.groups g o

lemma byInstance_load (s : GroupManager) (g : WidgetGroup) :
    (s.load g).byInstance =
      g.members.foldl (fun m member => m.insert member g.id) s.byInstance := rfl

lemma byWorkspace_load (s : GroupManager) (g : WidgetGroup) :
    (s.load g).byWorkspace = s.byWorkspace.insert g.workspaceId
      (insert g.id ((s.byWorkspace.lookup g.workspaceId).getD ∅)) := rfl

lemma Consistent.load {s : GroupManager} (h : Consistent s) {g : WidgetGroup}
    (hl : Loadable s g) : Consistent (s.load g) := by
  have honly : ∀ o ∈ (s.load g).groups, ∀ i ∈ o.members, i ∈ g.members → o = g := by
    intro o ho i hio hi
    rcases (mem_groups_load s g o).mp ho with rfl | ⟨ho, hne⟩
    · rfl
    · exact absurd (hl.apart i hi o ho hio) hne
  have hself : g ∈ (s.load g).groups := (mem_groups_load s g g).mpr (Or.inl rfl)
  constructor
  · intro o ho o' ho' i hi hi'
    rcases (mem_groups_load s g o).mp ho with rfl | ⟨hos, -⟩
    · exact (honly o' ho' i hi' hi).symm
    · rcases (mem_groups_load s g o').mp ho' with rfl | ⟨hos', -⟩
      · exact honly o ho i hi hi'
      · exact h.atMostOne o hos o' hos' i hi hi'
  · intro i gid
    rw [byInstance_load, lookup_foldl_insert]
    split_ifs with hi
    · constructor
      · intro heq
        exact ⟨g, hself, Option.some.inj heq, hi⟩
      · rintro ⟨o, ho, rfl, hio⟩
        rw [honly o ho i hio hi]
    · rw [h.byInstance]
      constructor
      · rintro ⟨o, ho, rfl, hio⟩
        have hne : o.id ≠ g.id := fun heq => hi ((hl.replaced o ho heq).2 hio)
        exact ⟨o, (mem_groups_load s g o).mpr (Or.inr ⟨ho, hne⟩), rfl, hio⟩
      · rintro ⟨o, ho, rfl, hio⟩
        rcases (mem_groups_load s g o).mp ho with rfl | ⟨ho, -⟩
        · exact absurd hio hi
        · exact ⟨o, ho, rfl, hio⟩
  · intro ws gid
    rw [byWorkspace_load]
    by_cases hws : ws = g.workspaceId
    · subst hws
      rw [Finmap.lookup_insert, Option.getD_some, Finset.mem_insert, h.byWorkspace]
      constructor
      · rintro (rfl | ⟨o, ho, rfl, hows⟩)
        · exact ⟨g, hself, rfl, rfl⟩
        · by_cases heq : o.id = g.id
          · exact ⟨g, hself, heq.symm, rfl⟩
          · exact ⟨o, (mem_groups_load s g o).mpr (Or.inr ⟨ho, heq⟩), rfl, hows⟩
      · rintro ⟨o, ho, rfl, hows⟩
        rcases (mem_groups_load s g o).mp ho with rfl | ⟨ho, -⟩
        · exact Or.inl rfl
        · exact Or.inr ⟨o, ho, rfl, hows⟩
    · rw [Finmap.lookup_insert_of_ne _ hws, h.byWorkspace]
      constructor
      · rintro ⟨o, ho, rfl, hows⟩
        have hne : o.id ≠ g.id := fun heq => hws (hows.symm.trans (hl.replaced o ho heq).1)
        exact ⟨o, (mem_groups_load s g o).mpr (Or.inr ⟨ho, hne⟩), rfl, hows⟩
      · rintro ⟨o, ho, rfl, hows⟩
        rcases (mem_groups_load s g o).mp ho with rfl | ⟨ho, -⟩
        · exact absurd hows.symm hws
        · exact ⟨o, ho, rfl, hows⟩

/-- Taking a group out with its index entries. -/
lemma Consistent.unload {s s' : GroupManager} (h : Consistent s) {g : WidgetGroup}
    (hg : g ∈ s.groups) (hgroups : s'.groups = s.groups.erase g.id)
    (hi : s'.byInstance = (s.unindexGroup g).byInstance)
    (hw : s'.byWorkspace = (s.unindexGroup g).byWorkspace) : Consistent s' := by
  have hmem : ∀ o, o ∈ s'.groups ↔ o ∈ s.groups ∧ o.id ≠ g.id := by
    intro o
    rw [hgroups, KeyedMap.mem_erase]
  constructor
  · intro o ho o' ho' i hi hi'
    exact h.atMostOne o ((hmem o).mp ho).1 o' ((hmem o').mp ho').1 i hi hi'
  · intro i gid
    have hlookup : s'.byInstance.lookup i =
        if i ∈ g.members ∧ s.byInstance.lookup i = some g.id then none
        else s.byInstance.lookup i := by
      rw [hi]
      exact lookup_foldl_erase g.members s.byInstance g.id i
    rw [hlookup]
    split_ifs with hig
    · constructor
      · intro heq
        simp at heq
      · rintro ⟨o, ho, rfl, hio⟩
        obtain ⟨ho, hne⟩ := (hmem o).mp ho
        exact absurd (congrArg WidgetGroup.id (h.atMostOne o ho g hg i hio hig.1)) hne
    · rw [h.byInstance]
      constructor
      · rintro ⟨o, ho, rfl, hio⟩
        refine ⟨o, (hmem o).mpr ⟨ho, fun heq => hig ?_⟩, rfl, hio⟩
        obtain rfl : o = g := KeyedMap.eq_of_key_eq ho hg heq
        exact ⟨hio, (h.byInstance i o.id).mpr ⟨o, ho, rfl, hio⟩⟩
      · rintro ⟨o, ho, rfl, hio⟩
        exact ⟨o, ((hmem o).mp ho).1, rfl, hio⟩
  · intro ws gid
    have hset : gid ∈ (s'.byWorkspace.lookup ws).getD ∅ ↔
        gid ∈ (s.byWorkspace.lookup ws).getD ∅ ∧ (ws = g.workspaceId → gid ≠ g.id) := by
      rw [hw]
      unfold unindexGroup
      by_cases hws : ws = g.workspaceId
      · subst hws
        cases hlookup : s.byWorkspace.lookup g.workspaceId with
        | none => simp [hlookup]
        | some set => simp [and_comm]
      · cases hlookup : s.byWorkspace.lookup g.workspaceId with
        | none => simp [hws]
        | some set => simp [hws, Finmap.lookup_insert_of_ne]
    rw [hset, h.byWorkspace]
    constructor
    · rintro ⟨⟨o, ho, rfl, hows⟩, hne⟩
      refine ⟨o, (hmem o).mpr ⟨ho, fun heq => ?_⟩, rfl, hows⟩
      obtain rfl : o = g := KeyedMap.eq_of_key_eq ho hg heq
      exact hne hows.symm rfl
    · rintro ⟨o, ho, rfl, hows⟩
      obtain ⟨ho, hne⟩ := (hmem o).mp ho
      exact ⟨⟨o, ho, rfl, hows⟩, fun _ => hne⟩

/-! ### One call -/

/-- A call on the manager, with the id drawn for a new group and the outcomes of the store. -/
inductive Call
  | createGroup (id workspaceId : Uuid) (members : List Uuid) (position : GridPosition)
      (size : WidgetSize) (stored : Transaction)
  | dissolveGroup (groupId : Uuid) (stored : Transaction)
  | addToGroup (groupId instanceId : Uuid) (stored : Transaction)
  | removeFromGroup (groupId instanceId : Uuid) (stored : Transaction)
  | switchActive (groupId instanceId : Uuid) (stored : Transaction)
  | updateSlot (groupId : Uuid) (position : GridPosition) (size : WidgetSize)
      (stored : Transaction)
  | reorderMembers (groupId : Uuid) (src dst : ℕ) (stored : Transaction)
  | restoreFromStorage (failure : Option (ℕ × StorageError))

/-- The manager after a call. -/
def after (s : GroupManager) : Call → GroupManager
  | .createGroup newId ws members position size stored =>
    (s.createGroup newId ws members position size stored).1
  | .dissolveGroup gid stored => (s.dissolveGroup gid stored).1
  | .addToGroup gid i stored => (s.addToGroup gid i stored).1
  | .removeFromGroup gid i stored => (s.removeFromGroup gid i stored).1
  | .switchActive gid i stored => (s.switchActive gid i stored).1
  | .updateSlot gid position size stored => (s.updateSlot gid position size stored).1
  | .reorderMembers gid src dst stored => (s.reorderMembers gid src dst stored).1
  | .restoreFromStorage failure => (s.restoreFromStorage failure).1

/-- A call that puts no instance into a second group: it is in none when a group is made of it, in
no other when it is added, and the stored groups are apart and agree with those in memory. -/
def Respects (s : GroupManager) : Call → Prop
  | .createGroup newId _ members _ _ _ =>
    (∀ g ∈ s.groups, g.id ≠ newId) ∧ ∀ i ∈ members, ∀ g ∈ s.groups, i ∉ g.members
  | .addToGroup gid i _ =>
    (∃ g ∈ s.groups, g.id = gid) → ∀ g ∈ s.groups, i ∈ g.members → g.id = gid
  | .restoreFromStorage _ =>
    (∀ g ∈ s.storage, Loadable s g) ∧
      ∀ g ∈ s.storage, ∀ o ∈ s.storage, ∀ i ∈ g.members, i ∈ o.members → o = g
  | _ => True

lemma consistent_persist {s : GroupManager} (h : Consistent s) (g : WidgetGroup)
    (stored : Transaction) : Consistent (s.persist g stored).1 := by
  cases stored with
  | ok u => exact h.of_same rfl rfl rfl
  | error e => exact h

/-- A call that changes one group in place. -/
lemma consistent_updateGroup {s : GroupManager} (h : Consistent s) (gid : Uuid)
    {change : WidgetGroup → Except WidgetError WidgetGroup}
    {index : Finmap (fun _ : Uuid => Uuid) → Finmap fun _ : Uuid => Uuid} (stored : Transaction)
    (hchange : ∀ g ∈ s.groups, g.id = gid → ∀ g', change g = .ok g' → SameSlot g g' ∧
      (∀ i ∈ g'.members, ∀ o ∈ s.groups, i ∈ o.members → o.id = gid) ∧
      ∀ i, (index s.byInstance).lookup i = if i ∈ g'.members then some gid
        else if i ∈ g.members then none else s.byInstance.lookup i) :
    Consistent (s.updateGroup gid change index stored).1 := by
  unfold updateGroup
  cases hf : s.groups.find? gid with
  | none => exact h
  | some g =>
    obtain ⟨hg, rfl⟩ := (KeyedMap.find?_eq_some_iff s.groups gid g).mp hf
    dsimp only
    cases hc : change g with
    | error e => exact h
    | ok g' =>
      obtain ⟨hsame, hapart, hindex⟩ := hchange g hg rfl g' hc
      refine consistent_persist ?_ g' stored
      exact h.replace hg hsame rfl rfl hapart hindex

lemma consistent_addToGroup {s : GroupManager} (h : Consistent s) (gid i : Uuid)
    (stored : Transaction)
    (hr : (∃ g ∈ s.groups, g.id = gid) → ∀ g ∈ s.groups, i ∈ g.members → g.id = gid) :
    Consistent (s.addToGroup gid i stored).1 := by
  apply consistent_updateGroup h
  intro g hg hid g' hc
  obtain rfl := Except.ok.inj hc
  have hapart : ∀ j ∈ (g.addMember i).members, ∀ o ∈ s.groups, j ∈ o.members → o.id = gid := by
    intro j hj o ho hjo
    rcases (g.mem_addMember i j).mp hj with hj | rfl
    · exact (congrArg WidgetGroup.id (h.atMostOne o ho g hg j hjo hj)).trans hid
    · exact hr ⟨g, hg, hid⟩ o ho hjo
  refine ⟨⟨g.id_addMember i, g.workspaceId_addMember i⟩, hapart, fun j => ?_⟩
  by_cases hji : j = i
  · subst hji
    simp
  · rw [Finmap.lookup_insert_of_ne _ hji]
    by_cases hj : j ∈ g.members
    · simpa [hj] using (h.byInstance j gid).mpr ⟨g, hg, hid, hj⟩
    · simp [hj, hji]

lemma consistent_removeFromGroup {s : GroupManager} (h : Consistent s) (gid i : Uuid)
    (stored : Transaction) : Consistent (s.removeFromGroup gid i stored).1 := by
  apply consistent_updateGroup h
  intro g hg hid g' hc
  obtain ⟨hsame, hi, hmem⟩ := removeMember_spec hc
  refine ⟨hsame, fun j hj o ho hjo => ?_, fun j => ?_⟩
  · exact (congrArg WidgetGroup.id
      (h.atMostOne o ho g hg j hjo ((hmem j).mp hj).1)).trans hid
  · by_cases hji : j = i
    · subst hji
      simp [hmem, hi]
    · rw [Finmap.lookup_erase_ne hji]
      by_cases hj : j ∈ g.members
      · simpa [hmem, hj, hji] using (h.byInstance j gid).mpr ⟨g, hg, hid, hj⟩
      · simp [hmem, hj]

/-- A change that keeps the members of a group. -/
lemma consistent_sameMembers {s : GroupManager} (h : Consistent s) (gid : Uuid)
    {change : WidgetGroup → Except WidgetError WidgetGroup} (stored : Transaction)
    (hchange : ∀ g g', change g = .ok g' → SameSlot g g' ∧ ∀ j, j ∈ g'.members ↔ j ∈ g.members) :
    Consistent (s.updateGroup gid change id stored).1 := by
  apply consistent_updateGroup h
  intro g hg hid g' hc
  obtain ⟨hsame, hmem⟩ := hchange g g' hc
  refine ⟨hsame, fun j hj o ho hjo => ?_, fun j => ?_⟩
  · exact (congrArg WidgetGroup.id (h.atMostOne o ho g hg j hjo ((hmem j).mp hj))).trans hid
  · by_cases hj : j ∈ g.members
    · simpa [hmem, hj] using (h.byInstance j gid).mpr ⟨g, hg, hid, hj⟩
    · simp [hmem, hj]

lemma consistent_createGroup {s : GroupManager} (h : Consistent s) (newId ws : Uuid)
    (members : List Uuid) (position : GridPosition) (size : WidgetSize) (stored : Transaction)
    (hnew : ∀ g ∈ s.groups, g.id ≠ newId) (hfree : ∀ i ∈ members, ∀ g ∈ s.groups, i ∉ g.members) :
    Consistent (s.createGroup newId ws members position size stored).1 := by
  unfold createGroup persist
  cases stored with
  | error e => exact h
  | ok u =>
    obtain ⟨hid, -, hmem⟩ := foldl_addMember members (WidgetGroup.new newId ws position size)
    have hload : Consistent
        (load s (members.foldl addMember (WidgetGroup.new newId ws position size))) := by
      refine h.load ⟨fun i hi o ho hio => ?_, fun o ho heq => ?_⟩
      · have hi : i ∈ members := ((hmem i).mp hi).resolve_left List.not_mem_nil
        exact absurd hio (hfree i hi o ho)
      · exact absurd (heq.trans hid) (hnew o ho)
    exact hload.of_same rfl rfl rfl

lemma consistent_dissolveGroup {s : GroupManager} (h : Consistent s) (gid : Uuid)
    (stored : Transaction) : Consistent (s.dissolveGroup gid stored).1 := by
  unfold dissolveGroup deletePersisted
  cases hf : s.groups.find? gid with
  | none => exact h
  | some g =>
    obtain ⟨hg, rfl⟩ := (KeyedMap.find?_eq_some_iff s.groups gid g).mp hf
    cases stored with
    | ok u => exact h.unload hg rfl rfl rfl
    | error e => exact h.unload hg rfl rfl rfl

/-- Loading groups that are apart, each of which can be loaded at the start. -/
lemma Consistent.foldl_load {s : GroupManager} (h : Consistent s) {l : List WidgetGroup}
    (hl : ∀ g ∈ l, Loadable s g) (hkey : ∀ g ∈ l, ∀ o ∈ l, g.id = o.id → g = o)
    (hapart : ∀ g ∈ l, ∀ o ∈ l, ∀ i ∈ g.members, i ∈ o.members → o = g) :
    Consistent (l.foldl GroupManager.load s) := by
  induction l generalizing s with
  | nil => exact h
  | cons g l ih =>
    have hg : g ∈ g :: l := List.mem_cons_self
    have htail : ∀ o ∈ l, o ∈ g :: l := fun o ho => List.mem_cons_of_mem g ho
    refine ih (h.load (hl g hg)) (fun k hk => ⟨?_, ?_⟩)
      (fun a ha b hb => hkey a (htail a ha) b (htail b hb))
      (fun a ha b hb => hapart a (htail a ha) b (htail b hb))
    · intro i hi o ho hio
      rcases (mem_groups_load s g o).mp ho with rfl | ⟨ho, -⟩
      · exact congrArg WidgetGroup.id (hapart k (htail k hk) o hg i hi hio)
      · exact (hl k (htail k hk)).apart i hi o ho hio
    · intro o ho heq
      rcases (mem_groups_load s g o).mp ho with rfl | ⟨ho, -⟩
      · obtain rfl := hkey o hg k (htail k hk) heq
        exact ⟨rfl, List.Subset.refl _⟩
      · exact (hl k (htail k hk)).replaced o ho heq

/-- A call that respects the groups keeps the indexes right. -/
lemma consistent_after {s : GroupManager} (h : Consistent s) {c : Call} (hr : Respects s c) :
    Consistent (s.after c) := by
  cases c with
  | createGroup newId ws members position size stored =>
    exact consistent_createGroup h newId ws members position size stored hr.1 hr.2
  | dissolveGroup gid stored => exact consistent_dissolveGroup h gid stored
  | addToGroup gid i stored => exact consistent_addToGroup h gid i stored hr
  | removeFromGroup gid i stored => exact consistent_removeFromGroup h gid i stored
  | switchActive gid i stored =>
    have hsame := consistent_sameMembers h gid stored (fun g g' hc => by
      obtain ⟨hslot, hmem⟩ := activate_spec (i := i) hc
      exact ⟨hslot, fun j => by rw [hmem]⟩)
    show Consistent (s.switchActive gid i stored).1
    unfold switchActive
    cases hu : s.updateGroup gid (fun g => g.activate i) id stored with
    | mk s' r =>
      rw [hu] at hsame
      cases r with
      | ok u => exact hsame.of_same rfl rfl rfl
      | error e => exact hsame
  | updateSlot gid position size stored =>
    exact consistent_sameMembers h gid stored (fun g g' hc => by
      obtain rfl := Except.ok.inj hc
      exact ⟨⟨rfl, rfl⟩, fun j => Iff.rfl⟩)
  | reorderMembers gid src dst stored =>
    exact consistent_sameMembers h gid stored (fun g g' hc => reorder_spec hc)
  | restoreFromStorage failure =>
    obtain ⟨hl, hapart⟩ := hr
    have hkey : ∀ g ∈ s.storage, ∀ o ∈ s.storage, g.id = o.id → g = o :=
      fun g hg o ho => KeyedMap.eq_of_key_eq hg ho
    cases failure with
    | none => exact h.foldl_load hl hkey hapart
    | some f =>
      have hsub : ∀ g ∈ s.storage.toList.take f.1, g ∈ s.storage :=
        fun g hg => List.mem_of_mem_take hg
      exact h.foldl_load (fun g hg => hl g (hsub g hg))
        (fun g hg o ho => hkey g (hsub g hg) o (hsub o ho))
        (fun g hg o ho => hapart g (hsub g hg) o (hsub o ho))

/-! ### Runs -/

/-- One call of a run. -/
def Steps (s s' : GroupManager) : Prop := ∃ c, s' = s.after c

/-- One call that respects the groups. -/
def StepsApart (s s' : GroupManager) : Prop := ∃ c, Respects s c ∧ s' = s.after c

/-- In a run from a fresh manager whose calls put no instance into a second group, every state has
each instance in at most one group and indexes that hold exactly what the groups record. -/
theorem groups_consistent (storage : KeyedMap WidgetGroup.id) (s : GroupManager)
    (h : ReflTransGen StepsApart (new storage) s) : Consistent s := by
  induction h with
  | refl => exact consistent_new storage
  | tail _ hstep ih =>
    obtain ⟨c, hr, rfl⟩ := hstep
    exact consistent_after ih hr

/-- A call that makes a group of one widget. -/
def groupOfOne (newId : Uuid) : Call := .createGroup newId 0 [7] ⟨0, 0⟩ .small (.ok ())

/-- A group of two widgets is made. -/
def firstGroup : Call := .createGroup 1 0 [7, 8] ⟨0, 0⟩ .small (.ok ())

/-- A group of another one. -/
def secondGroup : Call := .createGroup 2 0 [9] ⟨0, 0⟩ .small (.ok ())

/-- The groups that are made. -/
def twoGroups : GroupManager := ((new .empty).after firstGroup).after secondGroup

/-- A widget leaves the first group. -/
def leave : Call := .removeFromGroup 1 8 (.ok ())

/-- It goes to the second one. -/
def follow : Call := .addToGroup 2 8 (.ok ())

theorem groups_consistent_moving : Consistent ((twoGroups.after leave).after follow) ∧
    ((twoGroups.after leave).after follow).groups.toList.map WidgetGroup.members =
      [[7], [9, 8]] := by
  refine ⟨groups_consistent .empty _ ((((ReflTransGen.single ⟨firstGroup, ⟨?_, ?_⟩, rfl⟩).tail
    ⟨secondGroup, ⟨?_, ?_⟩, rfl⟩).tail ⟨leave, trivial, rfl⟩).tail ⟨follow, fun _ => ?_, rfl⟩), rfl⟩
  · intro g hg
    have hlist : (twoGroups.after leave).groups.toList.map (fun g => (g.id, g.members)) =
      [(1, [7]), (2, [9])] := rfl
    rw [KeyedMap.mem_def] at hg
    have hmem := List.mem_map_of_mem (f := fun g => (g.id, g.members)) hg
    rw [hlist] at hmem
    intro hi
    simp only [List.mem_cons, List.not_mem_nil, or_false, Prod.mk.injEq] at hmem
    rcases hmem with ⟨-, hmembers⟩ | ⟨hid, -⟩
    · rw [hmembers] at hi
      exact absurd hi (by decide)
    · exact hid
  · exact fun g hg => absurd hg (KeyedMap.mem_empty g)
  · exact fun i _ g hg => absurd hg (KeyedMap.mem_empty g)
  · intro g hg
    have hlist : ((new .empty).after firstGroup).groups.toList =
      [((WidgetGroup.new 1 0 ⟨0, 0⟩ .small).addMember 7).addMember 8] := rfl
    rw [KeyedMap.mem_def, hlist, List.mem_singleton] at hg
    subst hg
    decide
  · intro i hi g hg
    have hlist : ((new .empty).after firstGroup).groups.toList =
      [((WidgetGroup.new 1 0 ⟨0, 0⟩ .small).addMember 7).addMember 8] := rfl
    rw [KeyedMap.mem_def, hlist, List.mem_singleton] at hg
    rw [List.mem_singleton] at hi
    subst hg hi
    decide

/-- Two groups made of the same widget hold it both. -/
theorem not_groups_consistent :
    ¬ ∀ (storage : KeyedMap WidgetGroup.id) (s : GroupManager),
      ReflTransGen Steps (new storage) s → Consistent s := by
  intro h
  have hrun : Consistent (((new .empty).after (groupOfOne 1)).after (groupOfOne 2)) :=
    h .empty _ (ReflTransGen.tail (ReflTransGen.single ⟨groupOfOne 1, rfl⟩) ⟨groupOfOne 2, rfl⟩)
  have hlist : (((new .empty).after (groupOfOne 1)).after (groupOfOne 2)).groups.toList =
      [(WidgetGroup.new 1 0 ⟨0, 0⟩ .small).addMember 7,
        (WidgetGroup.new 2 0 ⟨0, 0⟩ .small).addMember 7] := rfl
  have heq := hrun.atMostOne ((WidgetGroup.new 1 0 ⟨0, 0⟩ .small).addMember 7)
    (by rw [KeyedMap.mem_def, hlist]; simp)
    ((WidgetGroup.new 2 0 ⟨0, 0⟩ .small).addMember 7)
    (by rw [KeyedMap.mem_def, hlist]; simp) 7 (by simp) (by simp)
  have hid := congrArg WidgetGroup.id heq
  rw [id_addMember, id_addMember] at hid
  exact absurd hid (by decide)

end GroupManager

end Orchid.Widgets
