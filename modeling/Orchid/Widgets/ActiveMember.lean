import Orchid.Lib.Along
import Orchid.Widgets.Group

/-!
# The active member of a group

The group stores the index of its active member. Every operation keeps the index within the group;
whether it still points at the same instance depends on where the changed member stands.
-/

namespace Orchid.Widgets

open Lib

/-- A call that changes a group. -/
inductive GroupCall
  | addMember (instanceId : Uuid)
  | removeMember (instanceId : Uuid)
  | reorder (src dst : ℕ)
  | activate (instanceId : Uuid)

namespace WidgetGroup

/-- The group after a call; one that fails leaves it as it is. -/
def next (g : WidgetGroup) : GroupCall → WidgetGroup
  | .addMember instanceId => g.addMember instanceId
  | .removeMember instanceId => (g.removeMember instanceId).toOption.getD g
  | .reorder src dst => (g.reorder src dst).toOption.getD g
  | .activate instanceId => (g.activate instanceId).toOption.getD g

/-- The member that a call adds, removes or moves. -/
def changed (g : WidgetGroup) : GroupCall → Option Uuid
  | .addMember instanceId | .removeMember instanceId => some instanceId
  | .reorder src _ => g.members[src]?
  | .activate _ => none

/-- The active index is an index of the group, if the group has members. -/
def IndexValid (g : WidgetGroup) : Prop := g.members ≠ [] → g.activeMember.val < g.members.length

/-- After the call the index is valid, and changing another member leaves the same one active. -/
structure Follows (g : WidgetGroup) (call : GroupCall) : Prop where
  valid : (g.next call).IndexValid
  same : ∀ active, g.activeInstance = some active → ∀ member, g.changed call = some member →
    member ≠ active → (g.next call).activeInstance = some active

/-- No member is removed in front of an active one that is not the last, and none is moved over an
active one whose new index does not fit. -/
def Unshifted (g : WidgetGroup) : GroupCall → Prop
  | .removeMember instanceId => ∀ i, g.members[i]? = some instanceId →
      i < g.activeMember.val → g.activeMember.val + 1 = g.members.length
  | .reorder src dst =>
      g.activeMember.val < src → src < g.members.length → dst ≤ g.activeMember.val →
        g.activeMember.val + 1 < 2 ^ 16
  | .addMember _ | .activate _ => True

section Calls

variable {g : WidgetGroup} {active : Uuid}

lemma val_asU16_le (n : ℕ) : (asU16 n).val ≤ n := Nat.mod_le _ _

lemma activeInstance_eq_some_iff : g.activeInstance = some active ↔
    g.members[g.activeMember.val]? = some active := Iff.rfl

/-- The index of an empty group is zero, so that it is valid once there is a member. -/
def IndexInv (g : WidgetGroup) : Prop := g.activeMember.val < max g.members.length 1

lemma IndexInv.valid (h : g.IndexInv) : g.IndexValid := by
  intro hne
  have hpos := List.length_pos_of_ne_nil hne
  rw [IndexInv] at h
  omega

lemma indexInv_of_lt (h : g.activeMember.val < g.members.length) : g.IndexInv :=
  lt_of_lt_of_le h (le_max_left _ _)

lemma findIdx?_of_getElem? {l : List Uuid} (hl : l.Nodup) {k : ℕ} {x : Uuid}
    (h : l[k]? = some x) : l.findIdx? (fun m => m = x) = some k := by
  obtain ⟨hk, rfl⟩ := List.getElem?_eq_some_iff.mp h
  refine List.findIdx?_eq_some_iff_getElem.mpr ⟨hk, by simp, fun j hj => ?_⟩
  have hne : l[j] ≠ l[k] := fun heq => hj.ne ((hl.getElem_inj_iff).mp heq)
  simpa using hne

/-! ### Adding and activating -/

lemma addMember_next (hg : g.IndexInv) (instanceId : Uuid) :
    (g.next (.addMember instanceId)).IndexInv ∧ ∀ active, g.activeInstance = some active →
      (g.next (.addMember instanceId)).activeInstance = some active := by
  rw [next, addMember]
  split_ifs with hmem
  · exact ⟨hg, fun _ h => h⟩
  · refine ⟨?_, fun active h => ?_⟩
    · rw [IndexInv] at hg ⊢
      rw [List.length_append, List.length_singleton]
      dsimp only
      omega
    · have hlt : g.activeMember.val < g.members.length := (List.getElem?_eq_some_iff.mp h).1
      rw [activeInstance_eq_some_iff, List.getElem?_append_left hlt]
      exact h

lemma activate_next (hg : g.IndexInv) (instanceId : Uuid) :
    (g.next (.activate instanceId)).IndexInv := by
  rw [next, activate]
  cases hidx : g.members.findIdx? fun m => m = instanceId with
  | none => exact hg
  | some idx =>
    have hlt : idx < g.members.length := (List.findIdx?_eq_some_iff_getElem.mp hidx).1
    exact indexInv_of_lt (lt_of_le_of_lt (val_asU16_le idx) hlt)

/-! ### Removing -/

/-- Where the active index points once a member is gone. -/
lemma removeMember_index {pre post : List Uuid} {instanceId : Uuid} {a : U16}
    (hpost : instanceId ∉ post) (hnodup : (pre ++ post).Nodup)
    (ha : a.val ≤ pre.length + post.length) :
    let a' := if pre.length + post.length ≤ a.val then asU16 (pre.length + post.length - 1) else a
    a'.val < max (pre.length + post.length) 1 ∧
      ((∀ active, (pre ++ instanceId :: post)[a.val]? = some active → instanceId ≠ active →
        (pre ++ post)[a'.val]? = some active) ↔
          (pre.length < a.val → a.val = pre.length + post.length)) := by
  intro a'
  rcases Nat.lt_or_ge a.val (pre.length + post.length) with hlt | hge
  · have ha' : a' = a := if_neg (Nat.not_le.mpr hlt)
    rw [ha']
    refine ⟨lt_of_lt_of_le hlt (le_max_left _ _), ?_⟩
    rcases Nat.lt_trichotomy a.val pre.length with hbefore | hat | hbehind
    · refine iff_of_true (fun active h _ => ?_) fun h => absurd h (by omega)
      rw [List.getElem?_append_left hbefore] at h ⊢
      exact h
    · refine iff_of_true (fun active h hne => ?_) fun h => absurd h (by omega)
      rw [hat, List.getElem?_append_right le_rfl] at h
      simp at h
      exact absurd h hne
    · refine iff_of_false (fun h => ?_) fun h => absurd (h hbehind) (by omega)
      obtain ⟨k, hk⟩ : ∃ k, a.val = pre.length + 1 + k := ⟨a.val - (pre.length + 1), by omega⟩
      have hin : k + 1 < post.length := by omega
      have hmoved := h post[k] (by
        rw [List.getElem?_append_right (by omega),
          show a.val - pre.length = k + 1 by omega, List.getElem?_cons_succ,
          List.getElem?_eq_getElem]) fun heq => hpost (heq ▸ List.getElem_mem _)
      rw [List.getElem?_append_right (by omega), show a.val - pre.length = k + 1 by omega,
        List.getElem?_eq_getElem hin, Option.some.injEq,
        (hnodup.of_append_right).getElem_inj_iff] at hmoved
      omega
  · have ha' : a' = asU16 (pre.length + post.length - 1) := if_pos hge
    have hval : a'.val = pre.length + post.length - 1 := by
      rw [ha']
      exact Nat.mod_eq_of_lt (by omega)
    rw [hval]
    refine ⟨by omega, iff_of_true (fun active h hne => ?_) fun _ => le_antisymm ha hge⟩
    rcases Nat.eq_zero_or_pos post.length with hzero | hpos
    · rw [List.getElem?_append_right (by omega),
        show a.val - pre.length = 0 by omega] at h
      simp at h
      exact absurd h hne
    · rw [List.getElem?_append_right (by omega),
        show a.val - pre.length = (post.length - 1) + 1 by omega, List.getElem?_cons_succ] at h
      rw [List.getElem?_append_right (by omega),
        show pre.length + post.length - 1 - pre.length = post.length - 1 by omega]
      exact h

lemma removeMember_next (hg : g.IndexInv) (instanceId : Uuid) :
    (g.next (.removeMember instanceId)).IndexInv ∧
      ((∀ active, g.activeInstance = some active → instanceId ≠ active →
        (g.next (.removeMember instanceId)).activeInstance = some active) ↔
          g.Unshifted (.removeMember instanceId)) := by
  by_cases hmem : instanceId ∈ g.members
  · obtain ⟨pre, post, hmembers⟩ := List.append_of_mem hmem
    have hnodup := g.nodup
    rw [hmembers, List.nodup_middle, List.nodup_cons, List.mem_append, not_or] at hnodup
    obtain ⟨⟨hpre, hpost⟩, hnodup⟩ := hnodup
    have herase : g.members.erase instanceId = pre ++ post := by
      rw [hmembers, List.erase_append_right _ hpre, List.erase_cons_head]
    have hlen : g.members.length = pre.length + post.length + 1 := by
      rw [hmembers]
      simp
      omega
    have hshift : g.Unshifted (.removeMember instanceId) ↔
        (pre.length < g.activeMember.val → g.activeMember.val + 1 = g.members.length) := by
      have hat (i : ℕ) : g.members[i]? = some instanceId ↔ i = pre.length := by
        constructor
        · intro hi
          have hpos : g.members[pre.length]? = some instanceId := by simp [hmembers]
          obtain ⟨hi, hget⟩ := List.getElem?_eq_some_iff.mp hi
          obtain ⟨hpos, hget'⟩ := List.getElem?_eq_some_iff.mp hpos
          exact (g.nodup.getElem_inj_iff).mp (hget.trans hget'.symm)
        · rintro rfl
          simp [hmembers]
      rw [Unshifted]
      simp only [hat, forall_eq]
    rw [IndexInv, hlen] at hg
    have hm : (g.next (.removeMember instanceId)).members = pre ++ post := by
      rw [next, removeMember, if_pos hmem]
      exact herase
    have ha : (g.next (.removeMember instanceId)).activeMember =
        if pre.length + post.length ≤ g.activeMember.val then asU16 (pre.length + post.length - 1)
        else g.activeMember := by
      rw [← List.length_append, ← herase, next, removeMember, if_pos hmem]
      rfl
    have hindex := @removeMember_index pre post instanceId g.activeMember hpost hnodup (by omega)
    rw [← hmembers] at hindex
    simp only [hshift, IndexInv, activeInstance_eq_some_iff, hm, ha, hlen, List.length_append,
      Nat.add_right_cancel_iff]
    exact hindex
  · have hsame : g.next (.removeMember instanceId) = g := by
      rw [next, removeMember, if_neg hmem]
      rfl
    rw [hsame]
    refine ⟨hg, iff_of_true (fun active h _ => h) fun i hi => ?_⟩
    exact absurd (List.mem_of_getElem? hi) hmem

/-! ### Moving -/

/-- Where a member is after another one, or itself, was moved. -/
def movedIndex (src dst a : ℕ) : ℕ :=
  if a = src then dst
  else if (if src < a then a - 1 else a) < dst then (if src < a then a - 1 else a)
  else (if src < a then a - 1 else a) + 1

lemma getElem?_moveMember {members : List Uuid} {src dst a : ℕ} {x : Uuid}
    (hsrc : src < members.length) (hdst : dst < members.length) (ha : members[a]? = some x) :
    (moveMember members src dst)[movedIndex src dst a]? = some x := by
  have hin := (List.getElem?_eq_some_iff.mp ha).1
  rw [moveMember, List.getElem?_eq_getElem hsrc]
  dsimp only
  rw [List.getElem?_insertIdx, movedIndex, List.length_eraseIdx_of_lt hsrc]
  rcases eq_or_ne a src with rfl | hself
  · rw [if_pos rfl, if_neg (lt_irrefl _), if_pos rfl, if_pos (by omega), ← ha,
      List.getElem?_eq_getElem hin]
  · rw [if_neg hself]
    have hget : (members.eraseIdx src)[if src < a then a - 1 else a]? = some x := by
      rw [List.getElem?_eraseIdx]
      split_ifs with h₁ h₂ h₃
      · omega
      · rw [show a - 1 + 1 = a by omega]
        exact ha
      · exact ha
      · omega
    generalize (if src < a then a - 1 else a) = b at hget ⊢
    by_cases hb : b < dst
    · rw [if_pos hb, if_pos hb]
      exact hget
    · rw [if_neg hb, if_neg (by omega), if_neg (by omega)]
      exact hget

lemma reorder_next (hg : g.IndexInv) (src dst : ℕ) :
    (g.next (.reorder src dst)).IndexInv ∧
      ((∀ active, g.activeInstance = some active → ∀ member, g.members[src]? = some member →
        member ≠ active → (g.next (.reorder src dst)).activeInstance = some active) ↔
          g.Unshifted (.reorder src dst)) := by
  rw [Unshifted]
  by_cases hrange : g.members.length ≤ src ∨ g.members.length ≤ dst
  · have hsame : g.next (.reorder src dst) = g := by
      rw [next, reorder, dif_pos hrange]
      rfl
    rw [hsame]
    exact ⟨hg, iff_of_true (fun _ h _ _ _ => h) fun _ _ _ => by omega⟩
  · obtain ⟨hsrc, hdst⟩ : src < g.members.length ∧ dst < g.members.length := by omega
    have hactive : g.activeMember.val < g.members.length := by
      rw [IndexInv] at hg
      omega
    have hget : g.activeInstance = some g.members[g.activeMember.val] :=
      List.getElem?_eq_getElem hactive
    have hmoved := getElem?_moveMember hsrc hdst hget
    have hnodup := g.nodup_moveMember hrange
    have hfind := findIdx?_of_getElem? hnodup hmoved
    have hlen := (moveMember_perm g.members src dst hdst).length_eq
    have hin := (List.getElem?_eq_some_iff.mp hmoved).1
    rw [hlen] at hin
    have hm : (g.next (.reorder src dst)).members = moveMember g.members src dst := by
      rw [next, reorder, dif_neg hrange]
      rfl
    have ha : (g.next (.reorder src dst)).activeMember =
        asU16 (movedIndex src dst g.activeMember.val) := by
      rw [next, reorder, dif_neg hrange]
      simp only [hget, Option.bind_some, hfind]
      rfl
    have hle := val_asU16_le (movedIndex src dst g.activeMember.val)
    refine ⟨indexInv_of_lt ?_, ?_⟩
    · rw [hm, ha, hlen]
      exact lt_of_le_of_lt hle hin
    · have hsame : (∀ active, some g.members[g.activeMember.val] = some active →
          ∀ member, g.members[src]? = some member → member ≠ active →
            (moveMember g.members src dst)[(asU16 (movedIndex src dst g.activeMember.val)).val]? =
              some active) ↔
          (src ≠ g.activeMember.val → movedIndex src dst g.activeMember.val < 2 ^ 16) := by
        constructor
        · intro h hother
          have hne : g.members[src] ≠ g.members[g.activeMember.val] := fun heq =>
            hother ((g.nodup.getElem_inj_iff).mp heq)
          have hagain := h _ rfl _ (List.getElem?_eq_getElem hsrc) hne
          obtain ⟨hlt₁, hget₁⟩ := List.getElem?_eq_some_iff.mp hagain
          obtain ⟨hlt₂, hget₂⟩ := List.getElem?_eq_some_iff.mp hmoved
          have heq := (hnodup.getElem_inj_iff).mp (hget₁.trans hget₂.symm)
          rw [← heq]
          exact (asU16 _).isLt
        · intro h active heq member hmember hne
          obtain rfl := Option.some.inj heq
          have hother : src ≠ g.activeMember.val := by
            rintro rfl
            rw [List.getElem?_eq_getElem hsrc] at hmember
            exact hne (Option.some.inj hmember).symm
          have hval : (asU16 (movedIndex src dst g.activeMember.val)).val =
              movedIndex src dst g.activeMember.val := Nat.mod_eq_of_lt (h hother)
          rw [hval]
          exact hmoved
      simp only [activeInstance_eq_some_iff, hm, ha]
      rw [← activeInstance_eq_some_iff.mp hget] at hsame
      refine hsame.trans ?_
      rw [movedIndex]
      have := g.activeMember.isLt
      constructor
      · intro h h₁ _ h₂
        have hindex := h (by omega)
        have hskip : ¬ src < g.activeMember.val := by omega
        rw [if_neg (by omega), if_neg hskip, if_neg (by omega)] at hindex
        exact hindex
      · intro h hne
        split_ifs <;> omega

/-! ### All calls -/

lemma next_spec (hg : g.IndexInv) (call : GroupCall) :
    (g.next call).IndexInv ∧ (g.Follows call ↔ g.Unshifted call) := by
  have hfollows (h : (g.next call).IndexInv) : g.Follows call ↔
      ∀ active, g.activeInstance = some active → ∀ member, g.changed call = some member →
        member ≠ active → (g.next call).activeInstance = some active :=
    ⟨fun h' => h'.same, fun h' => ⟨h.valid, h'⟩⟩
  cases call with
  | addMember instanceId =>
    obtain ⟨hinv, hsame⟩ := addMember_next hg instanceId
    refine ⟨hinv, (hfollows hinv).trans (iff_of_true ?_ trivial)⟩
    exact fun active h _ _ _ => hsame active h
  | removeMember instanceId =>
    obtain ⟨hinv, hsame⟩ := removeMember_next hg instanceId
    refine ⟨hinv, (hfollows hinv).trans (Iff.trans ?_ hsame)⟩
    simp only [changed, Option.some.injEq, forall_eq']
  | reorder src dst =>
    obtain ⟨hinv, hsame⟩ := reorder_next hg src dst
    exact ⟨hinv, (hfollows hinv).trans hsame⟩
  | activate instanceId =>
    have hinv := activate_next hg instanceId
    exact ⟨hinv, (hfollows hinv).trans (iff_of_true (fun _ _ _ h => by cases h) trivial)⟩

end Calls

/-- From a new group on, every call keeps the index valid and the active member active exactly if
every call is unshifted. -/
theorem active_member_follows_iff (id workspaceId : Uuid) (position : GridPosition)
    (size : WidgetSize) (calls : List GroupCall) :
    Along next Follows (new id workspaceId position size) calls ↔
      Along next Unshifted (new id workspaceId position size) calls :=
  along_iff_along (fun _ call hg _ => (next_spec hg call).1)
    (fun _ call hg => (next_spec hg call).2)
    (Nat.lt_of_lt_of_le Nat.zero_lt_one (le_max_right _ _)) calls

/-- The second of three members is active; removing the first makes the third active. -/
theorem not_active_member_follows : ¬ ∀ (id workspaceId : Uuid) (position : GridPosition)
    (size : WidgetSize) (calls : List GroupCall),
    Along next Follows (new id workspaceId position size) calls := by
  intro h
  obtain ⟨-, -, -, -, hremove, -⟩ := h 0 0 ⟨0, 0⟩ .small
    [.addMember 1, .addMember 2, .addMember 3, .activate 2, .removeMember 1]
  have hsame := hremove.same 2 (by decide) 1 (by decide) (by decide)
  revert hsame
  decide

end WidgetGroup

end Orchid.Widgets
