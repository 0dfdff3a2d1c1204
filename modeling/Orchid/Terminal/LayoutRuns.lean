import Mathlib.Data.List.Nodup
import Mathlib.Data.List.Perm.Basic
import Orchid.Lib.Along
import Orchid.Terminal.Layout

/-!
# Runs of a layout

Which panes and which active tab every operation leaves, and when these are the ones that it should
leave.
-/

namespace Orchid.Terminal.LayoutRoot

open Lib (Along along_iff_along_of)

/-! ### Operations -/

/-- What is done to a layout. -/
inductive Op
  | addTab (id session : Uuid)
  | closeTab (index : ℕ)
  | moveTab (src dst : ℕ)
  | activate (index : ℕ)
  | split (direction : SplitDirection) (newSession : Uuid)
  | closeFocus
  | focusNext
  | focusPrevious

/-- The layout after an operation, and what it returns. -/
def after (s : LayoutRoot) : Op → LayoutRoot × Except LayoutInvariant Unit
  | .addTab id session => (s.addTab id session, .ok ())
  | .closeTab index => s.closeTab index
  | .moveTab src dst => s.moveTab src dst
  | .activate index => (s.activate index, .ok ())
  | .split direction newSession => s.split direction newSession
  | .closeFocus => s.closeFocus
  | .focusNext => (s.focusNext, .ok ())
  | .focusPrevious => (s.focusPrevious, .ok ())

/-- The panes of every tab. -/
def panes (s : LayoutRoot) : List (List Uuid) := s.tabs.map fun tab => tab.root.leaves

/-- The sessions that an operation opens. -/
def came : Op → List Uuid
  | .addTab _ session | .split _ session => [session]
  | _ => []

/-- The sessions that an operation closes. -/
def gone (s : LayoutRoot) : Op → List Uuid
  | .closeTab index => (s.panes[index]?).getD []
  | .closeFocus => s.focusedSession.toList
  | _ => []

/-- A layout beside the sessions that were opened and not closed yet. -/
structure Watched where
  layout : LayoutRoot
  opened : List Uuid

/-- An operation that fails opens and closes nothing. -/
def Watched.next (w : Watched) (op : Op) : Watched where
  layout := (w.layout.after op).1
  opened :=
    if (w.layout.after op).2.isOk then came op ++ w.opened.filter (· ∉ w.layout.gone op)
    else w.opened

/-- The layout of one tab and its session. -/
def Watched.new (id session : Uuid) : Watched := ⟨.new id session, [session]⟩

/-! ### What should hold -/

/-- The panes are where an operation that returns so should leave them: a new one right behind the
focused one, and the others in their order. -/
def RightPanes (s s' : LayoutRoot) (ok : Bool) : Op → Prop
  | .addTab _ session => s'.panes = s.panes ++ [[session]]
  | .closeTab index => s'.panes = if ok then s.panes.eraseIdx index else s.panes
  | .moveTab _ _ => s'.panes.Perm s.panes
  | .split _ newSession => ∃ pre f post, s.focusedSession = some f ∧
      s.panes[s.activeTab]? = some (pre ++ f :: post) ∧
      s'.panes = s.panes.set s.activeTab (pre ++ f :: newSession :: post)
  | .closeFocus =>
    if ok then ∃ pre f post, s.focusedSession = some f ∧
      s.panes[s.activeTab]? = some (pre ++ f :: post) ∧
      s'.panes = s.panes.set s.activeTab (pre ++ post)
    else s'.panes = s.panes
  | .activate _ | .focusNext | .focusPrevious => s'.panes = s.panes

/-- Another tab is closed, or any is moved. -/
def LeavesActive (s : LayoutRoot) : Op → Prop
  | .closeTab index => index ≠ s.activeTab
  | .moveTab _ _ => True
  | _ => False

/-- What should hold behind an operation. -/
structure Right (w : Watched) (op : Op) : Prop where
  /-- The sessions of the panes are different ones and those that are open. -/
  nodup : (w.next op).layout.panes.flatten.Nodup
  opened : ∀ x, x ∈ (w.next op).layout.panes.flatten ↔ x ∈ (w.next op).opened
  panes : RightPanes w.layout (w.next op).layout (w.layout.after op).2.isOk op
  /-- Every tab has the focus on one of its panes unless it has none. -/
  focus : ∀ tab ∈ (w.next op).layout.tabs, (∀ x ∈ tab.focusedSession, x ∈ tab.root.leaves) ∧
    (tab.focusedSession = none ↔ tab.root.leaves = [])
  inverse : ∀ tab ∈ (w.next op).layout.tabs,
    tab.focusNext.focusPrevious.focusedSession = tab.focusedSession ∧
      tab.focusPrevious.focusNext.focusedSession = tab.focusedSession
  /-- The active tab is there, and the same one where it should be. -/
  active_lt : (w.next op).layout.activeTab < (w.next op).layout.tabs.length
  active : LeavesActive w.layout op →
    (w.next op).layout.tabs[(w.next op).layout.activeTab]?.map Tab.id =
      w.layout.tabs[w.layout.activeTab]?.map Tab.id

/-- The identifiers of an operation are new ones. -/
def Fresh (w : Watched) : Op → Prop
  | .addTab id session => id ∉ w.layout.tabs.map Tab.id ∧ session ∉ w.opened
  | .split _ newSession => newSession ∉ w.opened
  | _ => True

/-- The focus of a tab with one pane is not closed, no tab in front of the active one is closed
unless that is the last one, and no tab is moved from one side of the active one to the other. -/
def Clean (w : Watched) : Op → Prop
  | .closeTab index =>
    w.layout.activeTab ≤ index ∨ w.layout.activeTab + 1 = w.layout.tabs.length
  | .moveTab src dst =>
    w.layout.tabs.length ≤ src ∨ w.layout.tabs.length ≤ dst ∨ src = dst ∨
      (src < w.layout.activeTab ∧ dst < w.layout.activeTab) ∨
      (w.layout.activeTab < src ∧ w.layout.activeTab < dst)
  | .closeFocus => ∀ tab ∈ w.layout.tabs[w.layout.activeTab]?, ∀ session,
      tab.root = .leaf session → tab.focus = none
  | _ => True

/-! ### The invariant -/

/-- The open sessions are those of the panes, and the active tab is there. -/
structure Watched.Good (w : Watched) : Prop where
  tabs : ∀ tab ∈ w.layout.tabs, tab.Good
  nodup : w.layout.panes.flatten.Nodup
  opened : ∀ x, x ∈ w.layout.panes.flatten ↔ x ∈ w.opened
  ids : (w.layout.tabs.map Tab.id).Nodup
  active_lt : w.layout.activeTab < w.layout.tabs.length

lemma good_new (id session : Uuid) : (Watched.new id session).Good where
  tabs := by
    intro tab htab
    obtain rfl := List.mem_singleton.mp htab
    exact Tab.good_single _ _ _
  nodup := by simp [Watched.new, new, panes, Tab.single, SplitNode.leaves]
  opened := by simp [Watched.new, new, panes, Tab.single, SplitNode.leaves]
  ids := by simp [Watched.new, new]
  active_lt := by simp [Watched.new, new]

/-- Sessions that come or go come to the panes, or go from them, and stay open otherwise. -/
lemma opened_of_perm {cs gs flat flat' opened : List Uuid} (hperm : (gs ++ flat').Perm (cs ++ flat))
    (hnodup : (cs ++ flat).Nodup) (hopened : ∀ x, x ∈ flat ↔ x ∈ opened)
    (hone : cs = [] ∨ gs = []) :
    flat'.Nodup ∧ ∀ x, x ∈ flat' ↔ x ∈ cs ++ opened.filter (· ∉ gs) := by
  obtain ⟨-, hflat', hdisj⟩ := List.nodup_append.mp (hperm.nodup_iff.mpr hnodup)
  refine ⟨hflat', fun x => ?_⟩
  have hmem := @List.Perm.mem_iff _ x _ _ hperm
  rw [List.mem_append, List.mem_append] at hmem
  rw [List.mem_append, List.mem_filter, ← hopened, decide_eq_true_iff]
  constructor
  · intro hx
    have hnot : x ∉ gs := fun hg => hdisj x hg x hx rfl
    exact (hmem.mp (.inr hx)).imp_right fun h => ⟨h, hnot⟩
  · rintro (hc | ⟨hx, hnot⟩)
    · refine (hmem.mpr (.inl hc)).resolve_left fun hg => ?_
      rcases hone with rfl | rfl
      · cases hc
      · cases hg
    · exact (hmem.mpr (.inr hx)).resolve_left hnot

lemma flatten_perm {l : List (List Uuid)} {i : ℕ} {L : List Uuid} (h : l[i]? = some L) :
    l.flatten.Perm (L ++ (l.eraseIdx i).flatten) := by
  obtain ⟨hi, rfl⟩ := List.getElem?_eq_some_iff.mp h
  exact (List.getElem_cons_eraseIdx_perm hi).symm.flatten

lemma flatten_set_perm {l : List (List Uuid)} {i : ℕ} (hi : i < l.length) (L : List Uuid) :
    (l.set i L).flatten.Perm (L ++ (l.eraseIdx i).flatten) := by
  have h := flatten_perm (List.getElem?_set_self hi (a := L))
  rwa [List.eraseIdx_set_eq] at h

lemma set_of_getElem? {α : Type} {l : List α} {i : ℕ} {a : α} (h : l[i]? = some a) :
    l.set i a = l := by
  obtain ⟨hi, rfl⟩ := List.getElem?_eq_some_iff.mp h
  exact List.set_getElem_self hi

variable {w : Watched} {op : Op}

lemma next_of_ok {s : LayoutRoot} (h : w.layout.after op = (s, .ok ())) :
    w.next op = ⟨s, came op ++ w.opened.filter (· ∉ w.layout.gone op)⟩ := by
  rw [Watched.next, h]
  rfl

lemma next_of_error {e : LayoutInvariant} (h : w.layout.after op = (w.layout, .error e)) :
    w.next op = w := by
  rw [Watched.next, h]
  rfl

/-- The active tab is exchanged for one with the same identifier. -/
lemma Watched.Good.inActive (h : w.Good) {tab tab' : Tab}
    (hget : w.layout.tabs[w.layout.activeTab]? = some tab) (hid : tab'.id = tab.id)
    (hgood : tab'.Good) {cs gs : List Uuid}
    (hperm : (gs ++ tab'.root.leaves).Perm (cs ++ tab.root.leaves)) (hcs : cs.Nodup)
    (hfresh : ∀ x ∈ cs, x ∉ w.opened) (hone : cs = [] ∨ gs = []) :
    Watched.Good
      ⟨{ w.layout with tabs := w.layout.tabs.set w.layout.activeTab tab' },
        cs ++ w.opened.filter (· ∉ gs)⟩ := by
  have hlt : w.layout.activeTab < w.layout.panes.length := by
    rw [panes, List.length_map]
    exact h.active_lt
  have hpanes : w.layout.panes[w.layout.activeTab]? = some tab.root.leaves := by
    rw [panes, List.getElem?_map, hget]
    rfl
  have hflat : (gs ++ (w.layout.panes.set w.layout.activeTab tab'.root.leaves).flatten).Perm
      (cs ++ w.layout.panes.flatten) := by
    refine ((flatten_set_perm hlt _).append_left gs).trans ?_
    refine .trans ?_ ((flatten_perm hpanes).symm.append_left cs)
    rw [← List.append_assoc, ← List.append_assoc]
    exact hperm.append_right _
  have hnodup : (cs ++ w.layout.panes.flatten).Nodup :=
    List.nodup_append.mpr ⟨hcs, h.nodup, fun x hx y hy hxy =>
      hfresh x hx ((h.opened x).mp (hxy ▸ hy))⟩
  obtain ⟨hnodup', hopened⟩ := opened_of_perm hflat hnodup h.opened hone
  have hmap : panes { w.layout with tabs := w.layout.tabs.set w.layout.activeTab tab' } =
      w.layout.panes.set w.layout.activeTab tab'.root.leaves := List.map_set
  refine ⟨?_, hmap ▸ hnodup', hmap ▸ hopened, ?_, ?_⟩
  · intro t ht
    exact (List.mem_or_eq_of_mem_set ht).elim (h.tabs t) fun heq => heq ▸ hgood
  · have hids : (w.layout.tabs.set w.layout.activeTab tab').map Tab.id =
        w.layout.tabs.map Tab.id := by
      rw [List.map_set, hid]
      refine set_of_getElem? ?_
      rw [List.getElem?_map, hget]
      rfl
    exact hids ▸ h.ids
  · show w.layout.activeTab < (w.layout.tabs.set w.layout.activeTab tab').length
    rw [List.length_set]
    exact h.active_lt

/-- What should hold follows from the invariant behind the operation. -/
lemma right_of_good (h : (w.next op).Good)
    (hpanes : RightPanes w.layout (w.next op).layout (w.layout.after op).2.isOk op)
    (hactive : LeavesActive w.layout op →
      (w.next op).layout.tabs[(w.next op).layout.activeTab]?.map Tab.id =
        w.layout.tabs[w.layout.activeTab]?.map Tab.id) : Right w op where
  nodup := h.nodup
  opened := h.opened
  panes := hpanes
  focus := by
    intro tab htab
    obtain ⟨f, hf, hmem⟩ := (h.tabs tab htab).exists_focused
    refine ⟨fun x hx => ?_, ?_⟩
    · obtain rfl : f = x := by simpa [hf] using hx
      exact hmem
    · rw [hf]
      exact iff_of_false (by simp) tab.root.leaves_ne_nil
  inverse tab htab := Tab.focus_inverse (h.tabs tab htab)
  active_lt := h.active_lt
  active := hactive

lemma right_iff_active (h : (w.next op).Good)
    (hpanes : RightPanes w.layout (w.next op).layout (w.layout.after op).2.isOk op)
    (hleaves : LeavesActive w.layout op) : Right w op ↔
      (w.next op).layout.tabs[(w.next op).layout.activeTab]?.map Tab.id =
        w.layout.tabs[w.layout.activeTab]?.map Tab.id :=
  ⟨fun hr => hr.active hleaves, fun hactive => right_of_good h hpanes fun _ => hactive⟩

/-! ### Every operation -/

lemma Watched.Good.exists_active (h : w.Good) : ∃ tab,
    w.layout.tabs[w.layout.activeTab]? = some tab ∧ tab.Good ∧
      w.layout.panes[w.layout.activeTab]? = some tab.root.leaves ∧
      w.layout.focusedSession = tab.focusedSession := by
  refine ⟨_, List.getElem?_eq_getElem h.active_lt, h.tabs _ (List.getElem_mem _), ?_, ?_⟩
  · rw [panes, List.getElem?_map, List.getElem?_eq_getElem h.active_lt]
    rfl
  · rw [focusedSession, List.getElem?_eq_getElem h.active_lt]
    rfl

/-- The focus goes round, and the panes stay. -/
lemma right_cycle (h : w.Good) {step : ℕ → ℕ → ℕ}
    (hafter : w.layout.after op =
      ((w.layout.inActive fun tab => (tab.cycle step, .ok ())).1, .ok ()))
    (hcame : came op = []) (hgone : w.layout.gone op = [])
    (hpanes : ∀ s', s'.panes = w.layout.panes → RightPanes w.layout s' true op)
    (hactive : ¬LeavesActive w.layout op) : (w.next op).Good ∧ Right w op := by
  obtain ⟨tab, hget, hgood, hleaves, -⟩ := h.exists_active
  have hset : (w.layout.inActive fun tab => (tab.cycle step, .ok ())).1 =
      { w.layout with tabs := w.layout.tabs.set w.layout.activeTab (tab.cycle step) } := by
    rw [LayoutRoot.inActive, hget]
  have hnext := next_of_ok hafter
  have hnew : (w.next op).Good := by
    rw [hnext, hset]
    refine h.inActive hget Tab.id_cycle hgood.cycle ?_ ?_ ?_ (.inl hcame)
    · rw [hcame, hgone, Tab.root_cycle]
    · rw [hcame]
      exact List.nodup_nil
    · rw [hcame]
      exact fun x hx => absurd hx List.not_mem_nil
  refine ⟨hnew, right_of_good hnew ?_ fun hla => absurd hla hactive⟩
  rw [hafter, hnext, hset]
  refine hpanes _ ?_
  rw [panes, List.map_set, Tab.root_cycle]
  exact set_of_getElem? hleaves

lemma right_split (h : w.Good) (direction : SplitDirection) {newSession : Uuid}
    (hfresh : newSession ∉ w.opened) :
    (w.next (.split direction newSession)).Good ∧ Right w (.split direction newSession) := by
  obtain ⟨tab, hget, hgood, hpane, hfocused⟩ := h.exists_active
  obtain ⟨pre, f, post, hf, hleaves, hnew⟩ := Tab.leaves_split hgood direction newSession
  have hafter : w.layout.after (.split direction newSession) =
      (⟨w.layout.tabs.set w.layout.activeTab (tab.split direction newSession),
        w.layout.activeTab⟩, .ok ()) := by
    rw [after, split, inActive, hget]
  have hperm :
      (tab.split direction newSession).root.leaves.Perm (newSession :: tab.root.leaves) := by
    rw [hnew, hleaves]
    exact ((List.Perm.swap newSession f post).append_left pre).trans List.perm_middle
  have hnot : newSession ∉ tab.root.leaves := fun hx =>
    hfresh ((h.opened newSession).mp (List.mem_flatten.mpr ⟨_, List.mem_of_getElem? hpane, hx⟩))
  have hsplit : (tab.split direction newSession).Good := by
    refine ⟨hperm.nodup_iff.mpr (List.nodup_cons.mpr ⟨hnot, hgood.nodup⟩), fun x hx => ?_⟩
    obtain rfl : newSession = x := by simpa [Tab.split] using hx
    exact hperm.mem_iff.mpr List.mem_cons_self
  have hnext := next_of_ok hafter
  have hgood' : (w.next (.split direction newSession)).Good := by
    rw [hnext]
    exact @Watched.Good.inActive w h tab (tab.split direction newSession) hget rfl hsplit
      [newSession] [] hperm (List.nodup_singleton _)
      (fun x hx => List.mem_singleton.mp hx ▸ hfresh) (.inr rfl)
  refine ⟨hgood', right_of_good hgood' ⟨pre, f, post, hfocused.trans hf, ?_, ?_⟩ False.elim⟩
  · rw [hpane, hleaves]
  · rw [hnext, panes, List.map_set, hnew, panes]

/-- The focused pane is closed unless it is alone. -/
lemma right_closeFocus_iff (h : w.Good) :
    (Clean w .closeFocus → (w.next .closeFocus).Good) ∧
      (Right w .closeFocus ↔ Clean w .closeFocus) := by
  obtain ⟨tab, hget, hgood, hpane, hfocused⟩ := h.exists_active
  have hafter : w.layout.after .closeFocus =
      (⟨w.layout.tabs.set w.layout.activeTab tab.closeFocus.1, w.layout.activeTab⟩,
        tab.closeFocus.2) := by
    rw [after, closeFocus, inActive, hget]
  have hclean : Clean w .closeFocus ↔ ∀ session, tab.root = .leaf session → tab.focus = none := by
    rw [Clean, hget]
    simp
  rcases Tab.closeFocus_cases hgood with ⟨hnone, e, hclose⟩ | ⟨f, hfocus, hroot, hclose⟩ |
    ⟨pre, f, post, hf, hleaves, hne, hok, hnew, hnone, hid⟩
  · rw [hclose, set_of_getElem? hget] at hafter
    have hnext : w.next .closeFocus = w := next_of_error hafter
    have hgood' : (w.next .closeFocus).Good := hnext.symm ▸ h
    refine ⟨fun _ => hgood', iff_of_true (right_of_good hgood' ?_ False.elim) ?_⟩
    · rw [hnext, hafter]
      rfl
    · exact hclean.mpr fun _ _ => hnone
  · rw [hclose, set_of_getElem? hget] at hafter
    have hnext := next_of_ok hafter
    have hnot : ¬Clean w .closeFocus := fun hc => by
      rw [hclean.mp hc f hroot] at hfocus
      cases hfocus
    refine ⟨fun hc => absurd hc hnot, iff_of_false (fun hr => ?_) hnot⟩
    -- The session is said to be closed, and its pane is there.
    have hmem : f ∈ w.layout.panes.flatten := by
      refine List.mem_flatten.mpr ⟨_, List.mem_of_getElem? hpane, ?_⟩
      rw [hroot]
      exact List.mem_singleton_self f
    have hfs : w.layout.focusedSession = some f := by
      rw [hfocused, Tab.focusedSession, hfocus]
      rfl
    have hopen := (hr.opened f).mp (by rw [hnext]; exact hmem)
    rw [hnext] at hopen
    simp [came, gone, hfs] at hopen
  · have hafter' : w.layout.after .closeFocus =
        (⟨w.layout.tabs.set w.layout.activeTab tab.closeFocus.1, w.layout.activeTab⟩, .ok ()) := by
      rw [hafter, hok]
    have hfs : w.layout.focusedSession = some f := hfocused.trans hf
    have hperm : ([f] ++ tab.closeFocus.1.root.leaves).Perm ([] ++ tab.root.leaves) := by
      rw [hnew, hleaves]
      show (f :: (pre ++ post)).Perm (pre ++ f :: post)
      exact List.perm_middle.symm
    have hclosed : tab.closeFocus.1.Good := by
      refine ⟨?_, fun x hx => ?_⟩
      · exact (List.nodup_append.mp (hperm.nodup_iff.mpr hgood.nodup)).2.1
      · rw [hnone] at hx
        cases hx
    have hnext := next_of_ok hafter'
    have hgood' : (w.next .closeFocus).Good := by
      rw [hnext]
      have hgone : w.layout.gone .closeFocus = [f] := by
        rw [gone, hfs]
        rfl
      rw [hgone]
      exact h.inActive hget hid hclosed hperm List.nodup_nil
        (fun x hx => absurd hx List.not_mem_nil) (.inl rfl)
    refine ⟨fun _ => hgood', iff_of_true (right_of_good hgood' ?_ False.elim) ?_⟩
    · rw [hafter', hnext]
      refine ⟨pre, f, post, hfs, by rw [hpane, hleaves], ?_⟩
      rw [panes, List.map_set, hnew, panes]
    · exact hclean.mpr fun session hroot => absurd hroot (hne session)

lemma right_addTab (h : w.Good) {id session : Uuid} (hid : id ∉ w.layout.tabs.map Tab.id)
    (hfresh : session ∉ w.opened) :
    (w.next (.addTab id session)).Good ∧ Right w (.addTab id session) := by
  have hafter : w.layout.after (.addTab id session) = (w.layout.addTab id session, .ok ()) := rfl
  have hpanes : (w.layout.addTab id session).panes = w.layout.panes ++ [[session]] := by
    simp [addTab, panes, Tab.single, SplitNode.leaves]
  have hperm : ([] ++ (w.layout.addTab id session).panes.flatten).Perm
      ([session] ++ w.layout.panes.flatten) := by
    rw [hpanes, List.flatten_append, List.flatten_singleton, List.nil_append]
    exact List.perm_append_comm
  have hnodup : ([session] ++ w.layout.panes.flatten).Nodup :=
    List.nodup_cons.mpr ⟨fun hx => hfresh ((h.opened session).mp hx), h.nodup⟩
  obtain ⟨hnodup', hopened⟩ := opened_of_perm hperm hnodup h.opened (.inr rfl)
  have hnext := next_of_ok hafter
  have hgood : (w.next (.addTab id session)).Good := by
    rw [hnext]
    refine ⟨?_, hnodup', hopened, ?_, ?_⟩
    · intro tab htab
      exact (List.mem_append.mp htab).elim (h.tabs tab) fun ht =>
        List.mem_singleton.mp ht ▸ Tab.good_single id session terminal
    · have hids : (w.layout.tabs ++ [Tab.single id terminal session]).map Tab.id =
          w.layout.tabs.map Tab.id ++ [id] := by simp [Tab.single]
      refine hids ▸ List.nodup_append.mpr ⟨h.ids, List.nodup_singleton id, fun x hx y hy hxy => ?_⟩
      exact hid (List.mem_singleton.mp hy ▸ hxy ▸ hx)
    · show w.layout.activeTab < (w.layout.tabs ++ [Tab.single id terminal session]).length
      rw [List.length_append]
      exact Nat.lt_add_right _ h.active_lt
  exact ⟨hgood, right_of_good hgood (by rw [hnext]; exact hpanes) False.elim⟩

lemma getElem?_panes (s : LayoutRoot) (i : ℕ) :
    s.panes[i]? = (s.tabs[i]?).map fun tab => tab.root.leaves := by
  rw [panes, List.getElem?_map]

/-- The same tab is active behind a tab that was closed if that one was not in front of it, or if it
is the last one. -/
lemma closed_active_iff {ids : List Uuid} (hids : ids.Nodup) {a i : ℕ} (ha : a < ids.length)
    (hi : i < ids.length) (hne : i ≠ a) :
    (ids.eraseIdx i)[if ids.length - 1 ≤ a then ids.length - 1 - 1 else a]? = ids[a]? ↔
      a ≤ i ∨ a + 1 = ids.length := by
  rw [List.getElem?_eraseIdx, eq_comm]
  split_ifs <;> rw [List.getElem?_inj ha hids] <;> omega

lemma right_closeTab_iff (h : w.Good) (index : ℕ) :
    (w.next (.closeTab index)).Good ∧
      (Right w (.closeTab index) ↔ Clean w (.closeTab index)) := by
  have hlt := h.active_lt
  by_cases hout : w.layout.tabs.length ≤ index
  · obtain ⟨e, hafter⟩ : ∃ e, w.layout.after (.closeTab index) = (w.layout, .error e) := by
      rw [after, closeTab, if_pos hout]
      exact ⟨_, rfl⟩
    have hnext := next_of_error hafter
    have hgood : (w.next (.closeTab index)).Good := hnext.symm ▸ h
    refine ⟨hgood, iff_of_true (right_of_good hgood ?_ fun _ => by rw [hnext]) ?_⟩
    · rw [hafter, hnext]
      rfl
    · exact .inl (hlt.le.trans hout)
  by_cases hone : w.layout.tabs.length = 1
  · obtain ⟨e, hafter⟩ : ∃ e, w.layout.after (.closeTab index) = (w.layout, .error e) := by
      rw [after, closeTab, if_neg hout, if_pos hone]
      exact ⟨_, rfl⟩
    have hnext := next_of_error hafter
    have hgood : (w.next (.closeTab index)).Good := hnext.symm ▸ h
    refine ⟨hgood, iff_of_true (right_of_good hgood ?_ fun _ => by rw [hnext]) ?_⟩
    · rw [hafter, hnext]
      rfl
    · exact .inr (by omega)
  have hindex := Nat.not_le.mp hout
  have hlen := List.length_eraseIdx_of_lt hindex
  have hafter : w.layout.after (.closeTab index) =
      (⟨w.layout.tabs.eraseIdx index, if w.layout.tabs.length - 1 ≤ w.layout.activeTab then
        w.layout.tabs.length - 1 - 1 else w.layout.activeTab⟩, .ok ()) := by
    rw [after, closeTab, if_neg hout, if_neg hone]
    simp only [hlen]
  have hnext := next_of_ok hafter
  have hpane : w.layout.panes[index]? = some w.layout.tabs[index].root.leaves := by
    rw [getElem?_panes, List.getElem?_eq_getElem hindex]
    rfl
  have hpanes : (w.layout.tabs.eraseIdx index).map (fun tab => tab.root.leaves) =
      w.layout.panes.eraseIdx index := (List.eraseIdx_map _ _ _).symm
  have hgood : (w.next (.closeTab index)).Good := by
    have hgone : w.layout.gone (.closeTab index) = w.layout.tabs[index].root.leaves := by
      rw [gone, hpane]
      rfl
    obtain ⟨hnodup, hopened⟩ := opened_of_perm
      (@flatten_perm w.layout.panes index _ hpane).symm h.nodup h.opened (.inl rfl)
    rw [hnext, hgone]
    refine ⟨fun tab htab => h.tabs tab (List.mem_of_mem_eraseIdx htab), ?_, ?_, ?_, ?_⟩
    · rw [panes, hpanes]
      exact hnodup
    · rw [panes, hpanes]
      exact hopened
    · show ((w.layout.tabs.eraseIdx index).map Tab.id).Nodup
      rw [← List.eraseIdx_map]
      exact h.ids.sublist (List.eraseIdx_sublist _ _)
    · show _ < (w.layout.tabs.eraseIdx index).length
      rw [hlen]
      dsimp only
      split_ifs <;> omega
  have hright : RightPanes w.layout (w.next (.closeTab index)).layout
      (w.layout.after (.closeTab index)).2.isOk (.closeTab index) := by
    rw [hafter, hnext]
    exact hpanes
  by_cases hne : index = w.layout.activeTab
  · exact ⟨hgood, iff_of_true (right_of_good hgood hright fun hl => absurd hne hl)
      (.inl hne.ge)⟩
  · refine ⟨hgood, (right_iff_active hgood hright hne).trans ?_⟩
    have key := @closed_active_iff _ h.ids w.layout.activeTab index (by simpa using hlt)
      (by simpa using hindex) hne
    rw [List.length_map] at key
    rw [hnext, ← List.getElem?_map, ← List.eraseIdx_map, ← List.getElem?_map]
    exact key

/-- The same tab is active behind a move on one side of it. -/
lemma moved_active_iff {ids : List Uuid} (hids : ids.Nodup) {a src dst : ℕ} (ha : a < ids.length)
    (hsrc : src < ids.length) (hdst : dst < ids.length) :
    ((ids.eraseIdx src).insertIdx dst ids[src])[a]? = ids[a]? ↔
      src = dst ∨ (src < a ∧ dst < a) ∨ (a < src ∧ a < dst) := by
  have hle : dst ≤ (ids.eraseIdx src).length := by
    rw [List.length_eraseIdx_of_lt hsrc]
    exact Nat.le_sub_one_of_lt hdst
  rw [List.getElem?_insertIdx, eq_comm]
  split_ifs with h₁ h₂ h₃
  · rw [List.getElem?_eraseIdx]
    split_ifs <;> rw [List.getElem?_inj ha hids] <;> omega
  · rw [← List.getElem?_eq_getElem hsrc, List.getElem?_inj ha hids]
    omega
  · exact absurd (h₂.trans_le hle) h₃
  · rw [List.getElem?_eraseIdx]
    split_ifs <;> rw [List.getElem?_inj ha hids] <;> omega

lemma right_moveTab_iff (h : w.Good) (src dst : ℕ) :
    (w.next (.moveTab src dst)).Good ∧
      (Right w (.moveTab src dst) ↔ Clean w (.moveTab src dst)) := by
  have hlt := h.active_lt
  by_cases hout : w.layout.tabs.length ≤ src ∨ w.layout.tabs.length ≤ dst
  · obtain ⟨e, hafter⟩ : ∃ e, w.layout.after (.moveTab src dst) = (w.layout, .error e) := by
      rw [after, moveTab]
      cases hget : w.layout.tabs[src]? with
      | none => exact ⟨_, rfl⟩
      | some tab =>
        have hsrc := (List.getElem?_eq_some_iff.mp hget).1
        have hdst := hout.resolve_left (Nat.not_le.mpr hsrc)
        exact ⟨_, if_pos hdst⟩
    have hnext := next_of_error hafter
    have hgood : (w.next (.moveTab src dst)).Good := hnext.symm ▸ h
    refine ⟨hgood, iff_of_true (right_of_good hgood ?_ fun _ => by rw [hnext]) ?_⟩
    · rw [hnext]
      exact .refl _
    · exact hout.elim .inl fun hd => .inr (.inl hd)
  obtain ⟨hs, hd⟩ := not_or.mp hout
  have hsrc := Nat.not_le.mp hs
  have hdst := Nat.not_le.mp hd
  have hafter : w.layout.after (.moveTab src dst) =
      (⟨(w.layout.tabs.eraseIdx src).insertIdx dst w.layout.tabs[src], w.layout.activeTab⟩,
        .ok ()) := by
    rw [after, moveTab, List.getElem?_eq_getElem hsrc]
    exact if_neg hd
  have hnext := next_of_ok hafter
  have hperm : ((w.layout.tabs.eraseIdx src).insertIdx dst w.layout.tabs[src]).Perm
      w.layout.tabs := by
    refine (List.perm_insertIdx _ _ ?_).trans (List.getElem_cons_eraseIdx_perm hsrc)
    rw [List.length_eraseIdx_of_lt hsrc]
    omega
  have hgood : (w.next (.moveTab src dst)).Good := by
    have hflat : (((w.layout.tabs.eraseIdx src).insertIdx dst w.layout.tabs[src]).map
        fun tab => tab.root.leaves).flatten.Perm w.layout.panes.flatten := (hperm.map _).flatten
    obtain ⟨hnodup, hopened⟩ := @opened_of_perm [] [] _ _ _ hflat h.nodup h.opened (.inl rfl)
    rw [hnext]
    refine ⟨fun tab htab => h.tabs tab (hperm.mem_iff.mp htab), hnodup, hopened, ?_, ?_⟩
    · exact (hperm.map Tab.id).nodup_iff.mpr h.ids
    · exact hlt.trans_eq hperm.length_eq.symm
  have hright : RightPanes w.layout (w.next (.moveTab src dst)).layout
      (w.layout.after (.moveTab src dst)).2.isOk (.moveTab src dst) := by
    rw [hnext]
    exact hperm.map _
  refine ⟨hgood, (right_iff_active hgood hright trivial).trans ?_⟩
  have key := @moved_active_iff _ h.ids w.layout.activeTab src dst (by simpa using hlt)
    (by simpa using hsrc) (by simpa using hdst)
  rw [hnext, ← List.getElem?_map, ← List.getElem?_map, List.map_insertIdx, ← List.eraseIdx_map]
  rw [List.getElem_map] at key
  rw [key, Clean]
  constructor
  · exact fun hk => .inr (.inr hk)
  · exact fun hc => (hc.resolve_left hs).resolve_left hd

lemma right_activate (h : w.Good) (index : ℕ) :
    (w.next (.activate index)).Good ∧ Right w (.activate index) := by
  have hafter : w.layout.after (.activate index) = (w.layout.activate index, .ok ()) := rfl
  have hnext := next_of_ok hafter
  have hgood : (w.next (.activate index)).Good := by
    obtain ⟨hnodup, hopened⟩ :=
      @opened_of_perm [] [] _ _ _ (.refl w.layout.panes.flatten) h.nodup h.opened (.inl rfl)
    rw [hnext]
    refine ⟨h.tabs, hnodup, hopened, h.ids, ?_⟩
    have hlt := h.active_lt
    show min index (w.layout.tabs.length - 1) < w.layout.tabs.length
    omega
  exact ⟨hgood, right_of_good hgood (by rw [hnext]; rfl) False.elim⟩

/-- From a state of the invariant an operation with new identifiers leaves what it should exactly if
it is clean. -/
lemma right_iff_clean (h : w.Good) (hfresh : Fresh w op) :
    (Clean w op → (w.next op).Good) ∧ (Right w op ↔ Clean w op) := by
  cases op with
  | addTab id session =>
    obtain ⟨hgood, hright⟩ := right_addTab h hfresh.1 hfresh.2
    exact ⟨fun _ => hgood, iff_of_true hright trivial⟩
  | closeTab index =>
    obtain ⟨hgood, hiff⟩ := right_closeTab_iff h index
    exact ⟨fun _ => hgood, hiff⟩
  | moveTab src dst =>
    obtain ⟨hgood, hiff⟩ := right_moveTab_iff h src dst
    exact ⟨fun _ => hgood, hiff⟩
  | activate index =>
    obtain ⟨hgood, hright⟩ := right_activate h index
    exact ⟨fun _ => hgood, iff_of_true hright trivial⟩
  | split direction newSession =>
    obtain ⟨hgood, hright⟩ := right_split h direction hfresh
    exact ⟨fun _ => hgood, iff_of_true hright trivial⟩
  | closeFocus => exact right_closeFocus_iff h
  | focusNext =>
    obtain ⟨hgood, hright⟩ :=
      @right_cycle w .focusNext h _ rfl rfl rfl (fun s' hs' => hs') id
    exact ⟨fun _ => hgood, iff_of_true hright trivial⟩
  | focusPrevious =>
    obtain ⟨hgood, hright⟩ :=
      @right_cycle w .focusPrevious h _ rfl rfl rfl (fun s' hs' => hs') id
    exact ⟨fun _ => hgood, iff_of_true hright trivial⟩

/-- Over operations with new identifiers the panes, the focus and the active tab are what they
should be behind each of them exactly if each of them is clean. -/
theorem layout_right_iff (id session : Uuid) (ops : List Op)
    (hfresh : Along Watched.next Fresh (.new id session) ops) :
    Along Watched.next Right (.new id session) ops ↔
      Along Watched.next Clean (.new id session) ops :=
  @along_iff_along_of _ _ Watched.next Right Clean Watched.Good Fresh
    (fun _ _ h hf hc => (right_iff_clean h hf).1 hc) (fun _ _ h hf => (right_iff_clean h hf).2) _
    (good_new id session) _ hfresh

theorem layout_right_split :
    Along Watched.next Right (.new 0 1) [.split .horizontal 2, .focusNext] ↔
      Along Watched.next Clean (.new 0 1) [.split .horizontal 2, .focusNext] :=
  layout_right_iff 0 1 [.split .horizontal 2, .focusNext]
    ⟨by simp [Fresh, Watched.new], trivial, trivial⟩

/-- A tab moved from the right of the active one to its left makes another tab the active one. -/
theorem not_layout_right : ¬∀ id session ops, Along Watched.next Fresh (.new id session) ops →
    Along Watched.next Right (.new id session) ops := by
  intro h
  have hfresh : Along Watched.next Fresh (.new 0 1) [.addTab 1 2, .moveTab 1 0] :=
    ⟨by simp [Fresh, Watched.new, new, Tab.single], trivial, trivial⟩
  have hactive := (h 0 1 _ hfresh).2.1.active trivial
  revert hactive
  decide

end Orchid.Terminal.LayoutRoot
