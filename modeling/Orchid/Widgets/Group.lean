import Mathlib.Data.Finmap
import Mathlib.Data.Finset.Insert
import Mathlib.Data.List.NodupEquivFin
import Orchid.Lib.KeyedMap
import Orchid.Widgets.Types

/-!
# Widget groups

Tab stacks of widgets and the manager that keeps them in memory, with an index by instance and one
by workspace, and in a table of the state store; `group/mod.rs`. Every call to the store is given
the outcome of its transaction.
-/

namespace Orchid.Widgets

open Lib

/-- `WidgetGroup`; a member occurs once. -/
structure WidgetGroup where
  id : Uuid
  workspaceId : Uuid
  members : List Uuid
  activeMember : U16
  position : GridPosition
  size : WidgetSize
  nodup : members.Nodup

namespace WidgetGroup

/-- `WidgetGroup::new`, under the id drawn for it. -/
def new (id workspaceId : Uuid) (position : GridPosition) (size : WidgetSize) : WidgetGroup :=
  ⟨id, workspaceId, [], 0, position, size, List.nodup_nil⟩

/-- `add_member` -/
def addMember (g : WidgetGroup) (instanceId : Uuid) : WidgetGroup :=
  if h : instanceId ∈ g.members then g
  else
    { g with
      members := g.members ++ [instanceId]
      nodup := List.nodup_append.mpr ⟨g.nodup, List.nodup_singleton _, by
        intro a ha b hb hab
        exact h (List.mem_singleton.mp hb ▸ hab ▸ ha)⟩ }

/-- `remove_member` -/
def removeMember (g : WidgetGroup) (instanceId : Uuid) : Except WidgetError WidgetGroup :=
  if instanceId ∈ g.members then
    let members := g.members.erase instanceId
    .ok { g with
      members
      activeMember :=
        if members.length ≤ g.activeMember.val then asU16 (members.length - 1) else g.activeMember
      nodup := g.nodup.erase instanceId }
  else .error .widgetNotInGroup

/-- `active_instance` -/
def activeInstance (g : WidgetGroup) : Option Uuid := g.members[g.activeMember.val]?

/-- The members with the one at `from` moved to `to`. -/
def moveMember (members : List Uuid) (src dst : ℕ) : List Uuid :=
  match members[src]? with
  | some member => (members.eraseIdx src).insertIdx dst member
  | none => members

lemma moveMember_perm (members : List Uuid) (src dst : ℕ) (hdst : dst < members.length) :
    (moveMember members src dst).Perm members := by
  unfold moveMember
  cases h : members[src]? with
  | none => exact List.Perm.refl _
  | some member =>
    obtain ⟨hsrc, rfl⟩ := List.getElem?_eq_some_iff.mp h
    have hlen : dst ≤ (members.eraseIdx src).length := by
      rw [List.length_eraseIdx_of_lt hsrc]
      exact Nat.le_sub_one_of_lt hdst
    exact (List.perm_insertIdx _ _ hlen).trans (List.getElem_cons_eraseIdx_perm hsrc)

lemma nodup_moveMember (g : WidgetGroup) {src dst : ℕ}
    (h : ¬ (g.members.length ≤ src ∨ g.members.length ≤ dst)) :
    (moveMember g.members src dst).Nodup :=
  (moveMember_perm g.members src dst (by omega)).nodup_iff.mpr g.nodup

/-- `reorder` -/
def reorder (g : WidgetGroup) (src dst : ℕ) : Except WidgetError WidgetGroup :=
  if h : g.members.length ≤ src ∨ g.members.length ≤ dst then
    .error (.groupMoveError ("reorder indices (".toList ++ (toString src).toList ++ ", ".toList ++
      (toString dst).toList ++ ") out of range for ".toList ++
      (toString g.members.length).toList ++ " members".toList))
  else
    let members := moveMember g.members src dst
    .ok { g with
      members
      activeMember :=
        match g.activeInstance.bind fun id => members.findIdx? fun m => m = id with
        | some idx => asU16 idx
        | none => g.activeMember
      nodup := g.nodup_moveMember h }

/-- `activate` -/
def activate (g : WidgetGroup) (instanceId : Uuid) : Except WidgetError WidgetGroup :=
  match g.members.findIdx? fun m => m = instanceId with
  | some idx => .ok { g with activeMember := asU16 idx }
  | none => .error .widgetNotInGroup

end WidgetGroup

/-- The events the manager publishes. -/
inductive GroupEvent
  | groupCreated (groupId workspaceId : Uuid)
  | groupDissolved (groupId : Uuid)
  | groupActiveChanged (groupId instanceId : Uuid)

/-- `GroupManager`, with the table of the store and what was published. -/
structure GroupManager where
  groups : KeyedMap WidgetGroup.id
  byWorkspace : Finmap fun _ : Uuid => Finset Uuid
  byInstance : Finmap fun _ : Uuid => Uuid
  storage : KeyedMap WidgetGroup.id
  bus : List GroupEvent

namespace GroupManager

/-- `GroupManager::new`, over what the store holds. -/
def new (storage : KeyedMap WidgetGroup.id) : GroupManager := ⟨.empty, ∅, ∅, storage, []⟩

/-- `index_group` -/
def indexGroup (s : GroupManager) (g : WidgetGroup) : GroupManager :=
  { s with
    byWorkspace := s.byWorkspace.insert g.workspaceId
      (insert g.id ((s.byWorkspace.lookup g.workspaceId).getD ∅))
    byInstance := g.members.foldl (fun m member => m.insert member g.id) s.byInstance }

/-- `unindex_group` -/
def unindexGroup (s : GroupManager) (g : WidgetGroup) : GroupManager :=
  { s with
    byWorkspace := match s.byWorkspace.lookup g.workspaceId with
      | some set => s.byWorkspace.insert g.workspaceId (set.erase g.id)
      | none => s.byWorkspace
    byInstance := g.members.foldl
      (fun m member => if m.lookup member = some g.id then m.erase member else m) s.byInstance }

/-- `persist` -/
def persist (s : GroupManager) (g : WidgetGroup) (stored : Transaction) :
    GroupManager × Except WidgetError Unit :=
  match stored with
  | .ok _ => ({ s with storage := s.storage.insert g }, .ok ())
  | .error e => (s, .error (.storage e))

/-- `delete_persisted` -/
def deletePersisted (s : GroupManager) (id : Uuid) (stored : Transaction) :
    GroupManager × Except WidgetError Unit :=
  match stored with
  | .ok _ => ({ s with storage := s.storage.erase id }, .ok ())
  | .error e => (s, .error (.storage e))

/-- `EventBus::publish` -/
def publish (s : GroupManager) (e : GroupEvent) : GroupManager := { s with bus := s.bus ++ [e] }

/-- One entry of the loop of `restore_from_storage`. -/
def load (s : GroupManager) (g : WidgetGroup) : GroupManager :=
  let s := s.indexGroup g
  { s with groups := s.groups.insert g }

/-- `restore_from_storage`; a read error stops it after some entries. -/
def restoreFromStorage (s : GroupManager) (failure : Option (ℕ × StorageError)) :
    GroupManager × Except WidgetError ℕ :=
  match failure with
  | none => (s.storage.toList.foldl load s, .ok s.storage.toList.length)
  | some (read, e) => ((s.storage.toList.take read).foldl load s, .error (.storage e))

/-- `create_group`, with the id that is drawn. -/
def createGroup (s : GroupManager) (id workspaceId : Uuid) (members : List Uuid)
    (position : GridPosition) (size : WidgetSize) (stored : Transaction) :
    GroupManager × Except WidgetError Uuid :=
  let group := members.foldl WidgetGroup.addMember (WidgetGroup.new id workspaceId position size)
  match s.persist group stored with
  | (s, .error e) => (s, .error e)
  | (s, .ok _) =>
    let s := s.indexGroup group
    let s := { s with groups := s.groups.insert group }
    (s.publish (.groupCreated id workspaceId), .ok id)

/-- `dissolve_group` -/
def dissolveGroup (s : GroupManager) (groupId : Uuid) (stored : Transaction) :
    GroupManager × Except WidgetError (List Uuid) :=
  match s.groups.find? groupId with
  | none => (s, .error (.groupNotFound groupId))
  | some group =>
    let s := { s with groups := s.groups.erase groupId }
    let s := s.unindexGroup group
    match s.deletePersisted groupId stored with
    | (s, .error e) => (s, .error e)
    | (s, .ok _) => (s.publish (.groupDissolved groupId), .ok group.members)

/-- Change a group in place, then persist it; an error of the change leaves everything as it is. -/
def updateGroup (s : GroupManager) (groupId : Uuid)
    (change : WidgetGroup → Except WidgetError WidgetGroup)
    (index : Finmap (fun _ : Uuid => Uuid) → Finmap fun _ : Uuid => Uuid) (stored : Transaction) :
    GroupManager × Except WidgetError Unit :=
  match s.groups.find? groupId with
  | none => (s, .error (.groupNotFound groupId))
  | some entry =>
    match change entry with
    | .error e => (s, .error e)
    | .ok group =>
      { s with groups := s.groups.insert group, byInstance := index s.byInstance }.persist
        group stored

/-- `add_to_group` -/
def addToGroup (s : GroupManager) (groupId instanceId : Uuid) (stored : Transaction) :
    GroupManager × Except WidgetError Unit :=
  s.updateGroup groupId (fun g => .ok (g.addMember instanceId))
    (fun m => m.insert instanceId groupId) stored

/-- `remove_from_group` -/
def removeFromGroup (s : GroupManager) (groupId instanceId : Uuid) (stored : Transaction) :
    GroupManager × Except WidgetError Unit :=
  s.updateGroup groupId (fun g => g.removeMember instanceId) (fun m => m.erase instanceId) stored

/-- `switch_active` -/
def switchActive (s : GroupManager) (groupId instanceId : Uuid) (stored : Transaction) :
    GroupManager × Except WidgetError Unit :=
  match s.updateGroup groupId (fun g => g.activate instanceId) id stored with
  | (s, .ok _) => (s.publish (.groupActiveChanged groupId instanceId), .ok ())
  | (s, .error e) => (s, .error e)

/-- `update_slot` -/
def updateSlot (s : GroupManager) (groupId : Uuid) (position : GridPosition) (size : WidgetSize)
    (stored : Transaction) : GroupManager × Except WidgetError Unit :=
  s.updateGroup groupId (fun g => .ok { g with position, size }) id stored

/-- `reorder_members` -/
def reorderMembers (s : GroupManager) (groupId : Uuid) (src dst : ℕ) (stored : Transaction) :
    GroupManager × Except WidgetError Unit :=
  s.updateGroup groupId (fun g => g.reorder src dst) id stored

end GroupManager

end Orchid.Widgets
