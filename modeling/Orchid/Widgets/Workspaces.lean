import Mathlib.Data.List.Nodup
import Mathlib.Data.List.Perm.Basic
import Orchid.Lib.Along
import Orchid.Widgets.Types

/-!
# Workspaces

The workspace manager; `workspace/mod.rs`, `workspace/operations.rs` and
`workspace/persistence.rs`. Each operation changes the list in memory and then stores it, in one
transaction or, for a deletion, in two. What a transaction answers is given with the operation.
-/

namespace Orchid.Widgets

open Lib

/-- `MAX_WORKSPACES` -/
def maxWorkspaces : ℕ := 9

/-- `Workspace` -/
structure Workspace where
  id : Uuid
  name : Text
  ordinal : U8
  wallpaper : Option Text
  createdAt : ℕ
  updatedAt : ℕ
  deriving DecidableEq

/-- `WidgetError`, as far as the workspace manager raises it. -/
inductive WorkspaceError
  | workspaceLimitReached (max : ℕ)
  | workspaceNotFound (id : Uuid)
  | invalidStateForOperation (text : Text)
  | storage (e : StorageError)
  deriving DecidableEq

/-- The rows of the store. -/
abbrev WorkspaceRows := Uuid → Option Workspace

/-- `WorkspaceManager` with the rows of its store. -/
structure WorkspaceManager where
  workspaces : List Workspace := []
  activeId : Option Uuid := none
  rows : WorkspaceRows := fun _ => none

/-! ### Ordinals -/

/-- `(idx as u8).saturating_add(1)` -/
def ordinalAt (idx : ℕ) : U8 := ⟨min (idx % 2 ^ 8 + 1) (2 ^ 8 - 1), by omega⟩

/-- `redensify` -/
def redensify (list : List Workspace) : List Workspace :=
  list.mapIdx fun idx ws => { ws with ordinal := ordinalAt idx }

/-- `reorder` -/
def reorder (list : List Workspace) (id : Uuid) (newOrdinal : U8) :
    Except WorkspaceError (List Workspace) :=
  match list.findIdx? fun w => w.id = id with
  | none => .error (.workspaceNotFound id)
  | some currentIdx =>
    let targetIdx := min (newOrdinal.val - 1) (list.length - 1)
    if currentIdx = targetIdx then .ok list
    else
      match list[currentIdx]? with
      -- the index is in the list
      | none => .ok list
      | some moved => .ok (redensify ((list.eraseIdx currentIdx).insertIdx targetIdx moved))

/-! ### Transactions -/

/-- `save` -/
def save (rows : WorkspaceRows) (ws : Workspace) : WorkspaceRows :=
  Function.update rows ws.id (some ws)

/-- `save_all` -/
def saveAll (rows : WorkspaceRows) (workspaces : List Workspace) : WorkspaceRows :=
  workspaces.foldl save rows

/-- `delete` -/
def deleteRow (rows : WorkspaceRows) (id : Uuid) : WorkspaceRows := Function.update rows id none

/-! ### Operations -/

namespace WorkspaceManager

/-- The end of an operation: the rows are written unless the transaction fails. -/
def persist (m : WorkspaceManager) (rows : WorkspaceRows) :
    Transaction → WorkspaceManager × Except WorkspaceError Unit
  | .ok _ => ({ m with rows }, .ok ())
  | .error e => (m, .error (.storage e))

/-- The workspace that `create` makes. -/
def newWorkspace (m : WorkspaceManager) (name : Text) (id : Uuid) (now : ℕ) : Workspace where
  id := id
  name := name
  ordinal := ordinalAt m.workspaces.length
  wallpaper := none
  createdAt := now
  updatedAt := now

/-- `create`, with the identifier and the time that it draws. -/
def create (m : WorkspaceManager) (name : Text) (id : Uuid) (now : ℕ) (stored : Transaction) :
    WorkspaceManager × Except WorkspaceError Unit :=
  if m.workspaces.length ≥ maxWorkspaces then
    (m, .error (.workspaceLimitReached maxWorkspaces))
  else
    let ws := m.newWorkspace name id now
    let m := { m with workspaces := m.workspaces ++ [ws] }
    match m.persist (save m.rows ws) stored with
    | (m, .error e) => (m, .error e)
    -- the first workspace becomes active
    | (m, .ok _) => ({ m with activeId := m.activeId.or (some id) }, .ok ())

/-- `rename` -/
def rename (m : WorkspaceManager) (id : Uuid) (name : Text) (now : ℕ) (stored : Transaction) :
    WorkspaceManager × Except WorkspaceError Unit :=
  match m.workspaces.find? fun w => w.id = id with
  | none => (m, .error (.workspaceNotFound id))
  | some ws =>
    let renamed := { ws with name, updatedAt := now }
    { m with workspaces := m.workspaces.replaceF fun w => if w.id = id then some renamed else none
      }.persist (save m.rows renamed) stored

/-- The end of `delete`: the workspace at the index is taken out, with two transactions. -/
def deleteAt (m : WorkspaceManager) (idx : ℕ) (id : Uuid) (deleted saved : Transaction) :
    WorkspaceManager × Except WorkspaceError Unit :=
  let m := { m with workspaces := redensify (m.workspaces.eraseIdx idx) }
  match m.persist (deleteRow m.rows id) deleted with
  | (m, .error e) => (m, .error e)
  | (m, .ok _) => m.persist (saveAll m.rows m.workspaces) saved

/-- `delete` -/
def delete (m : WorkspaceManager) (id : Uuid) (deleted saved : Transaction) :
    WorkspaceManager × Except WorkspaceError Unit :=
  if m.activeId = some id then
    (m, .error (.invalidStateForOperation
      "cannot delete the currently active workspace".toList))
  else if m.workspaces.length ≤ 1 then
    (m, .error (.invalidStateForOperation
      "cannot delete the last remaining workspace".toList))
  else
    match m.workspaces.findIdx? fun w => w.id = id with
    | none => (m, .error (.workspaceNotFound id))
    | some idx => m.deleteAt idx id deleted saved

/-- `switch_to` -/
def switchTo (m : WorkspaceManager) (id : Uuid) : WorkspaceManager × Except WorkspaceError Unit :=
  if m.workspaces.any fun w => w.id = id then ({ m with activeId := some id }, .ok ())
  else (m, .error (.workspaceNotFound id))

/-- `switch_by_ordinal` -/
def switchByOrdinal (m : WorkspaceManager) (ordinal : U8) :
    WorkspaceManager × Except WorkspaceError Unit :=
  match m.workspaces.find? fun w => w.ordinal = ordinal with
  | none => (m, .error (.workspaceNotFound 0))
  | some ws => m.switchTo ws.id

/-- `relative_switch` -/
def relativeSwitch (m : WorkspaceManager) (delta : ℤ) :
    WorkspaceManager × Except WorkspaceError Unit :=
  let idx := match m.activeId with
    | some a => (m.workspaces.findIdx? fun w => w.id = a).getD 0
    | none => 0
  let next := ((idx + delta) % m.workspaces.length).toNat
  match m.workspaces[next]? with
  -- the list is empty
  | none => (m, .error (.workspaceNotFound 0))
  | some ws => m.switchTo ws.id

/-- `reorder` -/
def reorder (m : WorkspaceManager) (id : Uuid) (newOrdinal : U8) (stored : Transaction) :
    WorkspaceManager × Except WorkspaceError Unit :=
  match Widgets.reorder m.workspaces id newOrdinal with
  | .error e => (m, .error e)
  | .ok workspaces => { m with workspaces }.persist (saveAll m.rows workspaces) stored

end WorkspaceManager

/-- A call on the manager, with what is drawn and what the store answers. -/
inductive WorkspaceCall
  | create (name : Text) (id : Uuid) (now : ℕ) (stored : Transaction)
  | rename (id : Uuid) (name : Text) (now : ℕ) (stored : Transaction)
  | delete (id : Uuid) (deleted saved : Transaction)
  | switchTo (id : Uuid)
  | switchByOrdinal (ordinal : U8)
  | relativeSwitch (delta : ℤ)
  | reorder (id : Uuid) (newOrdinal : U8) (stored : Transaction)

namespace WorkspaceCall

def run (m : WorkspaceManager) : WorkspaceCall → WorkspaceManager × Except WorkspaceError Unit
  | create name id now stored => m.create name id now stored
  | rename id name now stored => m.rename id name now stored
  | delete id deleted saved => m.delete id deleted saved
  | switchTo id => m.switchTo id
  | switchByOrdinal ordinal => m.switchByOrdinal ordinal
  | relativeSwitch delta => m.relativeSwitch delta
  | reorder id newOrdinal stored => m.reorder id newOrdinal stored

/-- The manager after the call. -/
def next (m : WorkspaceManager) (call : WorkspaceCall) : WorkspaceManager := (call.run m).1

/-- `Uuid::new_v4` draws an identifier that no workspace has. -/
def Fresh (m : WorkspaceManager) : WorkspaceCall → Prop
  | create _ id _ _ => ∀ ws ∈ m.workspaces, ws.id ≠ id
  | _ => True

end WorkspaceCall

/-! ### What is asked of the manager -/

/-- The rows are the workspaces of the list. -/
def Stored (rows : WorkspaceRows) (list : List Workspace) : Prop :=
  ∀ id ws, rows id = some ws ↔ ws ∈ list ∧ ws.id = id

/-- Ordinals are `1..n`, at most nine, the active workspace is in the list, and the rows are the
list. -/
structure WorkspaceManager.Consistent (m : WorkspaceManager) : Prop where
  nodup : (m.workspaces.map Workspace.id).Nodup
  ordinal : (m.workspaces.map fun ws => ws.ordinal.val) = List.range' 1 m.workspaces.length
  length_le : m.workspaces.length ≤ maxWorkspaces
  active : m.workspaces ≠ [] → ∃ id ∈ m.workspaces.map Workspace.id, m.activeId = some id
  inactive : m.workspaces = [] → m.activeId = none
  rows : Stored m.rows m.workspaces

/-- The call keeps the manager consistent, and leaves the list and the rows alone if it fails. -/
structure WorkspaceCall.Right (m : WorkspaceManager) (call : WorkspaceCall) : Prop where
  consistent : (call.next m).Consistent
  error : ∀ e, (call.run m).2 = .error e →
    (call.next m).workspaces = m.workspaces ∧ (call.next m).rows = m.rows

/-- No transaction fails after the list was changed. -/
def WorkspaceCall.Clean (m : WorkspaceManager) : WorkspaceCall → Prop
  | create _ _ _ stored => m.workspaces.length ≥ maxWorkspaces ∨ stored = .ok ()
  | rename id name now stored =>
    (∀ ws ∈ m.workspaces, ws.id = id → ws.name = name ∧ ws.updatedAt = now) ∨ stored = .ok ()
  | delete id deleted saved =>
    m.activeId = some id ∨ m.workspaces.length ≤ 1 ∨ (∀ ws ∈ m.workspaces, ws.id ≠ id) ∨
      deleted = .ok () ∧ saved = .ok ()
  | reorder id newOrdinal stored =>
    (∀ i (h : i < m.workspaces.length), m.workspaces[i].id = id →
      i = min (newOrdinal.val - 1) (m.workspaces.length - 1)) ∨ stored = .ok ()
  | switchTo _ | switchByOrdinal _ | relativeSwitch _ => True

/-! ### Rows -/

section Rows

variable {rows : WorkspaceRows} {list list' : List Workspace} {ws : Workspace}

lemma eq_of_id_eq (hnodup : (list.map Workspace.id).Nodup) {ws ws' : Workspace} (h : ws ∈ list)
    (h' : ws' ∈ list) (hid : ws.id = ws'.id) : ws = ws' :=
  List.inj_on_of_nodup_map hnodup h h' hid

lemma idx_eq_of_id_eq (hnodup : (list.map Workspace.id).Nodup) {i j : ℕ} (hi : i < list.length)
    (hj : j < list.length) (h : list[i].id = list[j].id) : i = j := by
  have hi' : i < (list.map Workspace.id).length := by simpa
  have hj' : j < (list.map Workspace.id).length := by simpa
  have hget : (list.map Workspace.id)[i] = (list.map Workspace.id)[j] := by simpa using h
  exact hnodup.getElem_inj_iff.mp hget

lemma Stored.save (h : Stored rows list) (hnodup : (list'.map Workspace.id).Nodup)
    (hmem : ws ∈ list') (hsame : ∀ w : Workspace, w.id ≠ ws.id → (w ∈ list' ↔ w ∈ list)) :
    Stored (save rows ws) list' := by
  intro id w
  rw [Widgets.save]
  by_cases hid : id = ws.id
  · subst hid
    rw [Function.update_self, Option.some.injEq]
    constructor
    · rintro rfl
      exact ⟨hmem, rfl⟩
    · exact fun hw => eq_of_id_eq hnodup hmem hw.1 hw.2.symm
  · rw [Function.update_of_ne hid, h id w]
    constructor
    · exact fun hw => ⟨(hsame w (hw.2 ▸ hid)).mpr hw.1, hw.2⟩
    · exact fun hw => ⟨(hsame w (hw.2 ▸ hid)).mp hw.1, hw.2⟩

lemma saveAll_eq_some_iff (hnodup : (list.map Workspace.id).Nodup) {id : Uuid} :
    saveAll rows list id = some ws ↔
      ws ∈ list ∧ ws.id = id ∨ id ∉ list.map Workspace.id ∧ rows id = some ws := by
  induction list generalizing rows with
  | nil => simp [saveAll]
  | cons w list ih =>
    obtain ⟨hnew, hnodup⟩ := List.nodup_cons.mp hnodup
    rw [saveAll, List.foldl_cons]
    refine (ih hnodup).trans ?_
    rw [save]
    by_cases hid : id = w.id
    · subst hid
      have hno : ¬ (ws ∈ list ∧ ws.id = w.id) := fun h =>
        hnew (h.2 ▸ List.mem_map_of_mem h.1)
      simp only [hno, false_or, hnew, not_false_eq_true, true_and, Function.update_self,
        Option.some.injEq, List.map_cons, List.mem_cons, not_true_eq_false, false_and,
        or_false]
      constructor
      · rintro rfl
        exact ⟨.inl rfl, rfl⟩
      · rintro ⟨rfl | h, hid⟩
        · rfl
        · exact absurd ⟨h, hid⟩ hno
    · rw [Function.update_of_ne hid]
      simp only [List.map_cons, List.mem_cons, hid, false_or]
      constructor
      · rintro (h | h)
        · exact .inl ⟨.inr h.1, h.2⟩
        · exact .inr h
      · rintro (⟨rfl | h, hw⟩ | h)
        · exact absurd hw.symm hid
        · exact .inl ⟨h, hw⟩
        · exact .inr h

/-- All rows are written, and there were none besides. -/
lemma stored_saveAll (hnodup : (list.map Workspace.id).Nodup)
    (hrows : ∀ id, id ∉ list.map Workspace.id → rows id = none) :
    Stored (saveAll rows list) list := by
  intro id ws
  rw [saveAll_eq_some_iff hnodup]
  constructor
  · rintro (h | ⟨hid, h⟩)
    · exact h
    · rw [hrows id hid] at h
      cases h
  · exact .inl

lemma Stored.eq_none (h : Stored rows list) {id : Uuid} (hid : id ∉ list.map Workspace.id) :
    rows id = none := by
  cases hrow : rows id with
  | none => rfl
  | some ws =>
    obtain ⟨hmem, rfl⟩ := (h id ws).mp hrow
    exact absurd (List.mem_map_of_mem hmem) hid

end Rows

/-! ### Ordinals of a list -/

lemma length_redensify (list : List Workspace) : (redensify list).length = list.length :=
  List.length_mapIdx

lemma map_id_redensify (list : List Workspace) :
    (redensify list).map Workspace.id = list.map Workspace.id := by
  refine List.ext_getElem (by simp [redensify]) fun i h₁ h₂ => ?_
  simp [redensify]

lemma ordinal_redensify {list : List Workspace} (h : list.length ≤ maxWorkspaces) :
    ((redensify list).map fun ws => ws.ordinal.val) = List.range' 1 (redensify list).length := by
  refine List.ext_getElem (by simp) fun i h₁ h₂ => ?_
  have hi : i < list.length := by
    rw [List.length_map, length_redensify] at h₁
    exact h₁
  have hmax : maxWorkspaces = 9 := rfl
  simp only [redensify, List.getElem_map, List.getElem_mapIdx, ordinalAt, List.getElem_range']
  omega

/-! ### Calls -/

section Calls

variable {m m' : WorkspaceManager} {call : WorkspaceCall}

lemma right_of_same {r : Except WorkspaceError Unit} (h : call.run m = (m, r))
    (hm : m.Consistent) : call.Right m := by
  have hnext : call.next m = m := congrArg Prod.fst h
  exact ⟨hnext.symm ▸ hm, fun _ _ => by rw [hnext]; exact ⟨rfl, rfl⟩⟩

lemma right_of_ok (h : call.run m = (m', .ok ())) (hm : m'.Consistent) : call.Right m := by
  have hnext : call.next m = m' := congrArg Prod.fst h
  refine ⟨hnext.symm ▸ hm, fun e he => ?_⟩
  rw [h] at he
  cases he

/-- A failure after the list was changed. -/
lemma not_right_of_changed {e : WorkspaceError} (h : call.run m = (m', .error e))
    (hne : m'.workspaces ≠ m.workspaces) : ¬ call.Right m := by
  intro hright
  have hsame := (hright.error e (by rw [h])).1
  rw [WorkspaceCall.next, h] at hsame
  exact hne hsame

/-- A list with the same identifiers in another order, or with fewer of them. -/
lemma right_iff_of_changed {rows : WorkspaceRows} {stored : Transaction}
    (hrun : call.run m = m'.persist rows stored) (hne : m'.workspaces ≠ m.workspaces)
    (hok : ({ m' with rows } : WorkspaceManager).Consistent) :
    call.Right m ↔ stored = .ok () := by
  cases stored with
  | error e => exact iff_of_false (not_right_of_changed hrun hne) (by simp)
  | ok u => exact iff_of_true (right_of_ok hrun hok) rfl

lemma consistent_create (hm : m.Consistent) (hlt : m.workspaces.length < maxWorkspaces)
    {name : Text} {id : Uuid} {now : ℕ} (hfresh : ∀ ws ∈ m.workspaces, ws.id ≠ id) :
    WorkspaceManager.Consistent {
      workspaces := m.workspaces ++ [m.newWorkspace name id now]
      activeId := m.activeId.or (some id)
      rows := save m.rows (m.newWorkspace name id now) } := by
  have hmax : maxWorkspaces = 9 := rfl
  have hnodup : ((m.workspaces ++ [m.newWorkspace name id now]).map Workspace.id).Nodup := by
    rw [List.map_append, List.nodup_append]
    refine ⟨hm.nodup, List.nodup_singleton _, ?_⟩
    rintro a ha b hb rfl
    obtain ⟨ws, hws, rfl⟩ := List.mem_map.mp ha
    exact hfresh ws hws (List.mem_singleton.mp hb)
  refine ⟨hnodup, ?_, ?_, fun _ => ?_, fun h => by simp at h, ?_⟩
  · have hordinal : (ordinalAt m.workspaces.length).val = 1 + 1 * m.workspaces.length := by
      rw [ordinalAt]
      dsimp only
      omega
    show (m.workspaces ++ _).map _ = List.range' 1 (m.workspaces ++ _).length
    rw [List.map_append, hm.ordinal, List.length_append, List.length_singleton, List.range'_concat,
      ← hordinal]
    rfl
  · show (m.workspaces ++ _).length ≤ _
    rw [List.length_append, List.length_singleton]
    exact hlt
  · by_cases hnil : m.workspaces = []
    · refine ⟨id, by simp [WorkspaceManager.newWorkspace], ?_⟩
      show m.activeId.or (some id) = some id
      rw [hm.inactive hnil]
      rfl
    · obtain ⟨a, ha, hactive⟩ := hm.active hnil
      refine ⟨a, by rw [List.map_append]; exact List.mem_append_left _ ha, ?_⟩
      show m.activeId.or (some id) = some a
      rw [hactive]
      rfl
  · refine hm.rows.save hnodup (by simp) fun w hw => ?_
    rw [List.mem_append, List.mem_singleton]
    exact or_iff_left fun h => hw (congrArg Workspace.id h)

lemma right_create_iff (hm : m.Consistent) {name : Text} {id : Uuid} {now : ℕ}
    {stored : Transaction} (hfresh : ∀ ws ∈ m.workspaces, ws.id ≠ id) :
    (WorkspaceCall.create name id now stored).Right m ↔
      m.workspaces.length ≥ maxWorkspaces ∨ stored = .ok () := by
  by_cases hfull : m.workspaces.length ≥ maxWorkspaces
  · exact iff_of_true (right_of_same (if_pos hfull) hm) (.inl hfull)
  · rw [or_iff_right hfull]
    cases stored with
    | error e =>
      refine iff_of_false (not_right_of_changed (if_neg hfull) fun h => ?_) (by simp)
      simpa using congrArg List.length h
    | ok u =>
      exact iff_of_true
        (right_of_ok (if_neg hfull) (consistent_create hm (Nat.not_le.mp hfull) hfresh)) rfl

lemma replaceF_split {p : Workspace → Option Workspace} {as bs : List Workspace}
    {ws ws' : Workspace} (has : ∀ a ∈ as, p a = none) (hws : p ws = some ws') :
    (as ++ ws :: bs).replaceF p = as ++ ws' :: bs := by
  induction as with
  | nil => exact List.replaceF_cons_of_some p hws
  | cons a as ih =>
    rw [List.cons_append, List.replaceF_cons_of_none p (has a List.mem_cons_self),
      ih fun b hb => has b (List.mem_cons_of_mem a hb)]
    rfl

/-- A workspace is exchanged for one with its identifier and ordinal. -/
lemma consistent_replace (hm : m.Consistent) {as bs : List Workspace} {ws ws' : Workspace}
    (hsplit : m.workspaces = as ++ ws :: bs) (hid : ws'.id = ws.id)
    (hordinal : ws'.ordinal = ws.ordinal) :
    WorkspaceManager.Consistent {
      workspaces := as ++ ws' :: bs, activeId := m.activeId, rows := save m.rows ws' } := by
  have hids : (as ++ ws' :: bs).map Workspace.id = m.workspaces.map Workspace.id := by
    rw [hsplit]
    simp [hid]
  have hlength : (as ++ ws' :: bs).length = m.workspaces.length := by
    rw [hsplit]
    simp
  have hne : m.workspaces ≠ [] := by simp [hsplit]
  refine ⟨hids ▸ hm.nodup, ?_, hlength ▸ hm.length_le, fun _ => ?_, fun h => by simp at h, ?_⟩
  · show (as ++ ws' :: bs).map _ = List.range' 1 (as ++ ws' :: bs).length
    rw [hlength, ← hm.ordinal, hsplit]
    simp [hordinal]
  · show ∃ id ∈ (as ++ ws' :: bs).map Workspace.id, m.activeId = some id
    rw [hids]
    exact hm.active hne
  · refine hm.rows.save (hids ▸ hm.nodup) (by simp) fun w hw => ?_
    have h : w ≠ ws' := fun h => hw (congrArg Workspace.id h)
    have h' : w ≠ ws := fun h => hw ((congrArg Workspace.id h).trans hid.symm)
    rw [hsplit]
    simp [h, h']

lemma right_rename_iff (hm : m.Consistent) {id : Uuid} {name : Text} {now : ℕ}
    {stored : Transaction} : (WorkspaceCall.rename id name now stored).Right m ↔
      (∀ ws ∈ m.workspaces, ws.id = id → ws.name = name ∧ ws.updatedAt = now) ∨
        stored = .ok () := by
  cases hfind : m.workspaces.find? fun w => w.id = id with
  | none =>
    have hno : ∀ ws ∈ m.workspaces, ws.id ≠ id := by
      simpa using List.find?_eq_none.mp hfind
    have hrun : (WorkspaceCall.rename id name now stored).run m =
        (m, .error (.workspaceNotFound id)) := by
      rw [WorkspaceCall.run, WorkspaceManager.rename, hfind]
    exact iff_of_true (right_of_same hrun hm) (.inl fun ws hws h => absurd h (hno ws hws))
  | some ws =>
    obtain ⟨hid, as, bs, hsplit, has⟩ := List.find?_eq_some_iff_append.mp hfind
    obtain rfl : ws.id = id := by simpa using hid
    have hmem : ws ∈ m.workspaces := by simp [hsplit]
    have hlist : (m.workspaces.replaceF fun w =>
        if w.id = ws.id then some { ws with name, updatedAt := now } else none) =
        as ++ { ws with name, updatedAt := now } :: bs := by
      rw [hsplit]
      refine replaceF_split (fun a ha => ?_) (if_pos rfl)
      exact if_neg (by simpa using has a ha)
    have hrun : (WorkspaceCall.rename ws.id name now stored).run m =
        WorkspaceManager.persist { m with
            workspaces := as ++ { ws with name, updatedAt := now } :: bs }
          (save m.rows { ws with name, updatedAt := now }) stored := by
      rw [WorkspaceCall.run, WorkspaceManager.rename, hfind]
      dsimp only
      rw [hlist]
    have hok := @consistent_replace m hm as bs ws { ws with name, updatedAt := now } hsplit rfl rfl
    by_cases hsame : ws.name = name ∧ ws.updatedAt = now
    · refine iff_of_true ?_ (.inl fun w hw hwid => eq_of_id_eq hm.nodup hmem hw hwid.symm ▸ hsame)
      obtain ⟨rfl, rfl⟩ := hsame
      cases stored with
      | error e =>
        have hfailed : (WorkspaceCall.rename ws.id ws.name ws.updatedAt (.error e)).run m =
            (m, .error (.storage e)) := by
          rw [hrun, WorkspaceManager.persist, ← hsplit]
        exact right_of_same hfailed hm
      | ok u => exact right_of_ok hrun hok
    · rw [or_iff_right fun h => hsame (h ws hmem rfl)]
      refine right_iff_of_changed hrun (fun h => hsame ?_) hok
      have hws := (List.cons.inj (List.append_cancel_left (h.trans hsplit))).1
      exact ⟨(congrArg Workspace.name hws).symm, (congrArg Workspace.updatedAt hws).symm⟩

/-- The list is renumbered and written. -/
lemma consistent_redensify {list : List Workspace} {rows : WorkspaceRows} {a : Uuid}
    (hnodup : (list.map Workspace.id).Nodup) (hlength : list.length ≤ maxWorkspaces)
    (ha : a ∈ list.map Workspace.id)
    (hrows : ∀ id, id ∉ list.map Workspace.id → rows id = none) :
    WorkspaceManager.Consistent {
      workspaces := redensify list, activeId := some a
      rows := saveAll rows (redensify list) } := by
  have hids := map_id_redensify list
  refine ⟨hids.symm ▸ hnodup, ordinal_redensify hlength, length_redensify list ▸ hlength,
    fun _ => ⟨a, hids.symm ▸ ha, rfl⟩, fun h => ?_, ?_⟩
  · have hnil : (redensify list).map Workspace.id = [] := congrArg (List.map Workspace.id) h
    rw [hids] at hnil
    rw [hnil] at ha
    cases ha
  · refine stored_saveAll (hids.symm ▸ hnodup) fun id hid => hrows id ?_
    rwa [hids] at hid

/-- What is left without the workspace at an index. -/
lemma mem_eraseIdx_iff {list : List Workspace} (hnodup : (list.map Workspace.id).Nodup) {i : ℕ}
    (hi : i < list.length) {id : Uuid} :
    id ∈ (list.eraseIdx i).map Workspace.id ↔ id ∈ list.map Workspace.id ∧ id ≠ list[i].id := by
  have hperm := (List.getElem_cons_eraseIdx_perm hi).map Workspace.id
  have hnew := (List.nodup_cons.mp (hperm.nodup_iff.mpr hnodup)).1
  rw [← hperm.mem_iff, List.map_cons, List.mem_cons]
  constructor
  · intro h
    refine ⟨.inr h, ?_⟩
    rintro rfl
    exact hnew h
  · rintro ⟨rfl | h, hne⟩
    · exact absurd rfl hne
    · exact h

lemma consistent_delete (hm : m.Consistent) {i : ℕ} (hi : i < m.workspaces.length)
    (hactive : m.activeId ≠ some m.workspaces[i].id) :
    WorkspaceManager.Consistent {
      workspaces := redensify (m.workspaces.eraseIdx i), activeId := m.activeId
      rows := saveAll (deleteRow m.rows m.workspaces[i].id)
        (redensify (m.workspaces.eraseIdx i)) } := by
  have hne : m.workspaces ≠ [] := List.ne_nil_of_length_pos (by omega)
  obtain ⟨a, ha, hactiveId⟩ := hm.active hne
  rw [hactiveId]
  refine consistent_redensify ?_ ?_ ?_ ?_
  · exact hm.nodup.sublist ((List.eraseIdx_sublist _ _).map _)
  · exact (List.eraseIdx_sublist _ _).length_le.trans hm.length_le
  · refine (mem_eraseIdx_iff hm.nodup hi).mpr ⟨ha, ?_⟩
    rintro rfl
    exact hactive hactiveId
  · intro id hid
    rw [mem_eraseIdx_iff hm.nodup hi, not_and_not_right] at hid
    rw [deleteRow]
    by_cases hrow : id = m.workspaces[i].id
    · rw [hrow, Function.update_self]
    · rw [Function.update_of_ne hrow]
      exact hm.rows.eq_none fun h => hrow (hid h)

lemma right_delete_iff (hm : m.Consistent) {id : Uuid} {deleted saved : Transaction} :
    (WorkspaceCall.delete id deleted saved).Right m ↔
      m.activeId = some id ∨ m.workspaces.length ≤ 1 ∨ (∀ ws ∈ m.workspaces, ws.id ≠ id) ∨
        deleted = .ok () ∧ saved = .ok () := by
  by_cases hactive : m.activeId = some id
  · exact iff_of_true (right_of_same (if_pos hactive) hm) (.inl hactive)
  by_cases hlast : m.workspaces.length ≤ 1
  · exact iff_of_true (right_of_same ((if_neg hactive).trans (if_pos hlast)) hm)
      (.inr (.inl hlast))
  rw [or_iff_right hactive, or_iff_right hlast]
  cases hfind : m.workspaces.findIdx? fun w => w.id = id with
  | none =>
    have hrun : (WorkspaceCall.delete id deleted saved).run m =
        (m, .error (.workspaceNotFound id)) := by
      rw [WorkspaceCall.run, WorkspaceManager.delete, if_neg hactive, if_neg hlast, hfind]
    refine iff_of_true (right_of_same hrun hm) (.inl ?_)
    simpa using List.findIdx?_eq_none_iff.mp hfind
  | some i =>
    obtain ⟨hi, hid, -⟩ := List.findIdx?_eq_some_iff_getElem.mp hfind
    obtain rfl : m.workspaces[i].id = id := by simpa using hid
    rw [or_iff_right fun h => h _ (List.getElem_mem hi) rfl]
    have hrun : (WorkspaceCall.delete m.workspaces[i].id deleted saved).run m =
        m.deleteAt i m.workspaces[i].id deleted saved := by
      rw [WorkspaceCall.run, WorkspaceManager.delete, if_neg hactive, if_neg hlast, hfind]
    have hchanged : redensify (m.workspaces.eraseIdx i) ≠ m.workspaces := by
      intro h
      have hlength := congrArg List.length h
      rw [length_redensify, List.length_eraseIdx_of_lt hi] at hlength
      omega
    rw [WorkspaceManager.deleteAt] at hrun
    cases deleted with
    | error e => exact iff_of_false (not_right_of_changed hrun hchanged) (by simp)
    | ok u =>
      rw [and_iff_right rfl]
      exact right_iff_of_changed hrun hchanged (consistent_delete hm hi hactive)

/-! ### Reordering -/

/-- Moving a workspace permutes the list. -/
lemma moved_perm {list : List Workspace} {i t : ℕ} (hi : i < list.length) (ht : t < list.length) :
    ((list.eraseIdx i).insertIdx t list[i]).Perm list := by
  have hle : t ≤ (list.eraseIdx i).length := by
    rw [List.length_eraseIdx_of_lt hi]
    omega
  exact (List.perm_insertIdx _ _ hle).trans (List.getElem_cons_eraseIdx_perm hi)

/-- Moving a workspace elsewhere changes the list, whatever the ordinals. -/
lemma moved_ne {list : List Workspace} (hnodup : (list.map Workspace.id).Nodup) {i t : ℕ}
    (hi : i < list.length) (ht : t < list.length) (hne : i ≠ t) :
    redensify ((list.eraseIdx i).insertIdx t list[i]) ≠ list := by
  intro h
  have hids := congrArg (List.map Workspace.id) h
  rw [map_id_redensify] at hids
  have hlength := (moved_perm hi ht).length_eq
  have hget : (((list.eraseIdx i).insertIdx t list[i]).map Workspace.id)[t]? =
      some list[i].id := by
    rw [List.getElem?_map, List.getElem?_eq_getElem (by omega), List.getElem_insertIdx_self]
    rfl
  rw [hids, List.getElem?_map, List.getElem?_eq_getElem ht, Option.map_some,
    Option.some.injEq] at hget
  exact hne (idx_eq_of_id_eq hnodup hi ht hget.symm)

lemma consistent_reorder (hm : m.Consistent) {i t : ℕ} (hi : i < m.workspaces.length)
    (ht : t < m.workspaces.length) :
    WorkspaceManager.Consistent {
      workspaces := redensify ((m.workspaces.eraseIdx i).insertIdx t m.workspaces[i])
      activeId := m.activeId
      rows := saveAll m.rows
        (redensify ((m.workspaces.eraseIdx i).insertIdx t m.workspaces[i])) } := by
  have hperm := moved_perm hi ht
  have hids := hperm.map Workspace.id
  obtain ⟨a, ha, hactive⟩ := hm.active (List.ne_nil_of_length_pos (by omega))
  rw [hactive]
  refine consistent_redensify (hids.nodup_iff.mpr hm.nodup) (hperm.length_eq ▸ hm.length_le)
    (hids.mem_iff.mpr ha) fun id hid => hm.rows.eq_none ?_
  rwa [hids.mem_iff] at hid

lemma right_reorder_iff (hm : m.Consistent) {id : Uuid} {newOrdinal : U8} {stored : Transaction} :
    (WorkspaceCall.reorder id newOrdinal stored).Right m ↔
      (∀ i (h : i < m.workspaces.length), m.workspaces[i].id = id →
        i = min (newOrdinal.val - 1) (m.workspaces.length - 1)) ∨ stored = .ok () := by
  cases hfind : m.workspaces.findIdx? fun w => w.id = id with
  | none =>
    have hno : ∀ ws ∈ m.workspaces, ws.id ≠ id := by
      simpa using List.findIdx?_eq_none_iff.mp hfind
    have hrun : (WorkspaceCall.reorder id newOrdinal stored).run m =
        (m, .error (.workspaceNotFound id)) := by
      rw [WorkspaceCall.run, WorkspaceManager.reorder, Widgets.reorder, hfind]
    exact iff_of_true (right_of_same hrun hm)
      (.inl fun i hi h => absurd h (hno _ (List.getElem_mem hi)))
  | some i =>
    obtain ⟨hi, hid, -⟩ := List.findIdx?_eq_some_iff_getElem.mp hfind
    obtain rfl : m.workspaces[i].id = id := by simpa using hid
    by_cases hsame : i = min (newOrdinal.val - 1) (m.workspaces.length - 1)
    · have hrun : (WorkspaceCall.reorder m.workspaces[i].id newOrdinal stored).run m =
          m.persist (saveAll m.rows m.workspaces) stored := by
        rw [WorkspaceCall.run, WorkspaceManager.reorder, Widgets.reorder, hfind]
        dsimp only
        rw [if_pos hsame]
      refine iff_of_true ?_ (.inl fun j hj hid => ?_)
      · cases stored with
        | error e => exact right_of_same hrun hm
        | ok u =>
          exact right_of_ok hrun ⟨hm.nodup, hm.ordinal, hm.length_le, hm.active, hm.inactive,
            stored_saveAll hm.nodup fun id hid => hm.rows.eq_none hid⟩
      · rw [← hsame]
        exact idx_eq_of_id_eq hm.nodup hj hi hid
    · rw [or_iff_right fun h => hsame (h i hi rfl)]
      have ht : min (newOrdinal.val - 1) (m.workspaces.length - 1) < m.workspaces.length := by
        omega
      have hrun : (WorkspaceCall.reorder m.workspaces[i].id newOrdinal stored).run m =
          WorkspaceManager.persist { m with
            workspaces := redensify ((m.workspaces.eraseIdx i).insertIdx
              (min (newOrdinal.val - 1) (m.workspaces.length - 1)) m.workspaces[i]) }
          (saveAll m.rows (redensify ((m.workspaces.eraseIdx i).insertIdx
              (min (newOrdinal.val - 1) (m.workspaces.length - 1)) m.workspaces[i]))) stored := by
        rw [WorkspaceCall.run, WorkspaceManager.reorder, Widgets.reorder, hfind]
        dsimp only
        rw [if_neg hsame, List.getElem?_eq_getElem hi]
      exact right_iff_of_changed hrun (moved_ne hm.nodup hi ht hsame) (consistent_reorder hm hi ht)

/-! ### Switching -/

/-- Switching fails, or only changes which workspace of the list is active. -/
lemma switchTo_cases (hm : m.Consistent) (id : Uuid) :
    (∃ r, m.switchTo id = (m, r)) ∨ ∃ m', m.switchTo id = (m', .ok ()) ∧ m'.Consistent := by
  rw [WorkspaceManager.switchTo]
  by_cases hany : (m.workspaces.any fun w => w.id = id) = true
  · rw [if_pos hany]
    obtain ⟨ws, hws, hid⟩ := List.any_eq_true.mp hany
    obtain rfl : ws.id = id := by simpa using hid
    refine .inr ⟨_, rfl, hm.nodup, hm.ordinal, hm.length_le, fun _ => ?_, fun h => ?_, hm.rows⟩
    · exact ⟨ws.id, List.mem_map_of_mem hws, rfl⟩
    · have h : m.workspaces = [] := h
      rw [h] at hws
      cases hws
  · rw [if_neg hany]
    exact .inl ⟨_, rfl⟩

lemma right_of_cases (hm : m.Consistent) (h : (∃ r, call.run m = (m, r)) ∨
    ∃ m', call.run m = (m', .ok ()) ∧ m'.Consistent) : call.Right m := by
  obtain ⟨r, hr⟩ | ⟨m', hrun, hm'⟩ := h
  · exact right_of_same hr hm
  · exact right_of_ok hrun hm'

lemma right_switchByOrdinal (hm : m.Consistent) (ordinal : U8) :
    (WorkspaceCall.switchByOrdinal ordinal).Right m := by
  refine right_of_cases hm ?_
  rw [WorkspaceCall.run, WorkspaceManager.switchByOrdinal]
  cases m.workspaces.find? fun w => w.ordinal = ordinal with
  | none => exact .inl ⟨_, rfl⟩
  | some ws => exact switchTo_cases hm ws.id

lemma right_relativeSwitch (hm : m.Consistent) (delta : ℤ) :
    (WorkspaceCall.relativeSwitch delta).Right m := by
  refine right_of_cases hm ?_
  rw [WorkspaceCall.run, WorkspaceManager.relativeSwitch]
  split
  · exact .inl ⟨_, rfl⟩
  · next ws _ => exact switchTo_cases hm ws.id

/-! ### Runs -/

/-- One call. -/
lemma right_iff_clean (hm : m.Consistent) (hfresh : call.Fresh m) :
    call.Right m ↔ call.Clean m := by
  cases call with
  | create name id now stored => exact right_create_iff hm hfresh
  | rename id name now stored => exact right_rename_iff hm
  | delete id deleted saved => exact right_delete_iff hm
  | switchTo id => exact iff_of_true (right_of_cases hm (switchTo_cases hm id)) trivial
  | switchByOrdinal ordinal => exact iff_of_true (right_switchByOrdinal hm ordinal) trivial
  | relativeSwitch delta => exact iff_of_true (right_relativeSwitch hm delta) trivial
  | reorder id newOrdinal stored => exact right_reorder_iff hm

end Calls

lemma consistent_new : ({} : WorkspaceManager).Consistent where
  nodup := List.nodup_nil
  ordinal := rfl
  length_le := Nat.zero_le _
  active := fun h => absurd rfl h
  inactive := fun _ => rfl
  rows := fun id ws => by simp

/-- Every call of a sequence keeps the manager consistent, and changes nothing if it fails, exactly
if no transaction fails after the list was changed. -/
theorem workspaces_right_iff {calls : List WorkspaceCall}
    (hfresh : Along WorkspaceCall.next (fun m call => call.Fresh m) {} calls) :
    Along WorkspaceCall.next (fun m call => call.Right m) {} calls ↔
      Along WorkspaceCall.next (fun m call => call.Clean m) {} calls :=
  @along_iff_along_of _ _ WorkspaceCall.next _ _ WorkspaceManager.Consistent _
    (fun _ _ hm hf hclean => ((right_iff_clean hm hf).mpr hclean).consistent)
    (fun _ _ hm hf => right_iff_clean hm hf) _ consistent_new _ hfresh

/-- Two workspaces, of which the second is deleted. -/
def twoWorkspaces : List WorkspaceCall :=
  [.create ['a'] 1 0 (.ok ()), .create ['b'] 2 0 (.ok ()), .delete 2 (.ok ()) (.ok ())]

theorem workspaces_right_twoWorkspaces :
    Along WorkspaceCall.next (fun m call => call.Right m) {} twoWorkspaces := by
  have hfresh : Along WorkspaceCall.next (fun m call => call.Fresh m) {} twoWorkspaces := by
    refine ⟨fun ws hws => absurd hws List.not_mem_nil, fun ws hws => ?_, trivial, trivial⟩
    cases List.mem_singleton.mp hws
    decide
  exact (workspaces_right_iff hfresh).mpr ⟨.inr rfl, .inr rfl, .inr (.inr (.inr ⟨rfl, rfl⟩)),
    trivial⟩

/-- A workspace whose transaction fails stays in the list. -/
theorem not_workspaces_right : ¬ ∀ calls : List WorkspaceCall,
    Along WorkspaceCall.next (fun m call => call.Fresh m) {} calls →
      Along WorkspaceCall.next (fun m call => call.Right m) {} calls := by
  intro h
  have hfresh : ∀ ws ∈ ({} : WorkspaceManager).workspaces, ws.id ≠ 1 :=
    fun ws hws => absurd hws List.not_mem_nil
  have hright := (h [.create ['a'] 1 0 (.error ⟨[]⟩)] ⟨hfresh, trivial⟩).1
  rcases (right_create_iff consistent_new hfresh).mp hright with hfull | hok
  · revert hfull
    decide
  · cases hok

end Orchid.Widgets
