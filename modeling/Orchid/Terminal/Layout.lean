import Mathlib.Data.List.InsertIdx
import Orchid.Base.Machine

/-!
# Tabs and split trees

`orchid-terminal/src/layout`: an ordered list of tabs, each of which is a binary tree of panes, and
the index of the active one. Geometry and the ratios set by dragging are left out.
-/

namespace Orchid.Terminal

/-- Identifiers are compared as they are. -/
scoped instance lawfulBEqUuid : LawfulBEq Uuid := inferInstance

/-! ### Trees -/

inductive SplitDirection
  | horizontal
  | vertical
  deriving DecidableEq

/-- A pane, or two halves. -/
inductive SplitNode
  | leaf (session : Uuid)
  | split (direction : SplitDirection) (ratio : F32) (first second : SplitNode)
  deriving DecidableEq

namespace SplitNode

/-- `leaves`, from left to right. -/
def leaves : SplitNode → List Uuid
  | leaf session => [session]
  | split _ _ first second => first.leaves ++ second.leaves

def leafCount : SplitNode → ℕ
  | leaf _ => 1
  | split _ _ first second => first.leafCount + second.leafCount

/-- `0.5` -/
def half : F32 := 0x3f000000

/-- `replace_leaf`, with whether there was one. -/
def replaceLeaf (focus : Uuid) (direction : SplitDirection) (newSession : Uuid) :
    SplitNode → SplitNode × Bool
  | leaf session =>
    if session = focus then (split direction half (leaf session) (leaf newSession), true)
    else (leaf session, false)
  | split d ratio first second =>
    let r := replaceLeaf focus direction newSession first
    if r.2 then (split d ratio r.1 second, true)
    else
      let r' := replaceLeaf focus direction newSession second
      (split d ratio r.1 r'.1, r'.2)

/-- A pane with this session. -/
def isLeafOf (target : Uuid) : SplitNode → Bool
  | leaf session => session = target
  | split _ _ _ _ => false

/-- `close_leaf`, with whether a split was collapsed. -/
def closeLeaf (target : Uuid) : SplitNode → SplitNode × Bool
  | leaf session => (leaf session, false)
  | split d ratio first second =>
    if first.isLeafOf target then (second, true)
    else if second.isLeafOf target then (first, true)
    else
      let r := closeLeaf target first
      if r.2 then (split d ratio r.1 second, true)
      else
        let r' := closeLeaf target second
        (split d ratio r.1 r'.1, r'.2)

end SplitNode

/-! ### Tabs -/

structure Tab where
  id : Uuid
  title : Text
  root : SplitNode
  focus : Option Uuid

/-- `TerminalError::LayoutInvariant` -/
structure LayoutInvariant where
  message : Text

namespace Tab

/-- `Tab::single` -/
def single (id : Uuid) (title : Text) (session : Uuid) : Tab where
  id
  title
  root := .leaf session
  focus := some session

/-- `focused_session` -/
def focusedSession (tab : Tab) : Option Uuid := tab.focus <|> tab.root.leaves.head?

/-- `position(..).unwrap_or(0)` -/
def position (leaves : List Uuid) (session : Uuid) : ℕ :=
  if session ∈ leaves then leaves.idxOf session else 0

/-- The focus goes to the pane that `step` finds from the focused one's index, counted round. -/
def cycle (step : ℕ → ℕ → ℕ) (tab : Tab) : Tab :=
  match tab.root.leaves with
  | [] => tab
  | first :: rest =>
    let leaves := first :: rest
    let pos := position leaves (tab.focusedSession.getD first)
    { tab with focus := leaves[step pos leaves.length % leaves.length]? }

/-- `focus_next_in_tab` -/
def focusNext (tab : Tab) : Tab := tab.cycle fun pos _ => pos + 1

/-- `focus_previous_in_tab` -/
def focusPrevious (tab : Tab) : Tab := tab.cycle fun pos len => pos + len - 1

/-- What `split` does to the active tab. -/
def split (tab : Tab) (direction : SplitDirection) (newSession : Uuid) : Tab :=
  let focus := tab.focus.getD ((tab.root.leaves.head?).getD newSession)
  { tab with
    root := (tab.root.replaceLeaf focus direction newSession).1
    focus := some newSession }

/-- What `close_focus` does to the active tab. -/
def closeFocus (tab : Tab) : Tab × Except LayoutInvariant Unit :=
  match tab.focus with
  | none => (tab, .error ⟨"cannot close without a focused pane".toList⟩)
  | some focus =>
    let r := tab.root.closeLeaf focus
    let tab := { tab with root := r.1, focus := if r.2 then none else tab.focus }
    if tab.root.leafCount = 0 then (tab, .error ⟨"tab became empty after close".toList⟩)
    else (tab, .ok ())

end Tab

/-! ### Layouts -/

structure LayoutRoot where
  tabs : List Tab
  activeTab : ℕ

namespace LayoutRoot

def terminal : Text := "Terminal".toList

/-- `LayoutRoot::new`; `id` is the tab's new identifier. -/
def new (id initialSession : Uuid) : LayoutRoot where
  tabs := [.single id terminal initialSession]
  activeTab := 0

def addTab (s : LayoutRoot) (id session : Uuid) : LayoutRoot :=
  { s with tabs := s.tabs ++ [.single id terminal session] }

def closeTab (s : LayoutRoot) (index : ℕ) : LayoutRoot × Except LayoutInvariant Unit :=
  if s.tabs.length ≤ index then
    (s, .error ⟨"tab index ".toList ++ (toString index).toList ++ " out of range".toList⟩)
  else if s.tabs.length = 1 then (s, .error ⟨"cannot close last remaining tab".toList⟩)
  else
    let tabs := s.tabs.eraseIdx index
    (⟨tabs, if tabs.length ≤ s.activeTab then tabs.length - 1 else s.activeTab⟩, .ok ())

def moveTab (s : LayoutRoot) (src dst : ℕ) : LayoutRoot × Except LayoutInvariant Unit :=
  match s.tabs[src]? with
  | none => (s, .error ⟨"tab index out of range".toList⟩)
  | some tab =>
    if s.tabs.length ≤ dst then (s, .error ⟨"tab index out of range".toList⟩)
    else ({ s with tabs := (s.tabs.eraseIdx src).insertIdx dst tab }, .ok ())

/-- A change of the active tab. -/
def inActive (s : LayoutRoot) (f : Tab → Tab × Except LayoutInvariant Unit) :
    LayoutRoot × Except LayoutInvariant Unit :=
  match s.tabs[s.activeTab]? with
  | none => (s, .error ⟨"no active tab".toList⟩)
  | some tab => ({ s with tabs := s.tabs.set s.activeTab (f tab).1 }, (f tab).2)

def split (s : LayoutRoot) (direction : SplitDirection) (newSession : Uuid) :
    LayoutRoot × Except LayoutInvariant Unit :=
  s.inActive fun tab => (tab.split direction newSession, .ok ())

def closeFocus (s : LayoutRoot) : LayoutRoot × Except LayoutInvariant Unit :=
  s.inActive Tab.closeFocus

def focusNext (s : LayoutRoot) : LayoutRoot := (s.inActive fun tab => (tab.focusNext, .ok ())).1

def focusPrevious (s : LayoutRoot) : LayoutRoot :=
  (s.inActive fun tab => (tab.focusPrevious, .ok ())).1

/-- `focused_session` -/
def focusedSession (s : LayoutRoot) : Option Uuid :=
  (s.tabs[s.activeTab]?).bind Tab.focusedSession

/-- Another tab becomes the active one, as far as there are tabs. -/
def activate (s : LayoutRoot) (index : ℕ) : LayoutRoot :=
  { s with activeTab := min index (s.tabs.length - 1) }

end LayoutRoot

/-! ### Trees and their leaves -/

namespace SplitNode

variable {focus target newSession : Uuid} {direction : SplitDirection}

lemma leaves_ne_nil (node : SplitNode) : node.leaves ≠ [] := by
  induction node with
  | leaf session => exact List.cons_ne_nil _ _
  | split d ratio first second ih _ => exact List.append_ne_nil_of_left_ne_nil ih _

lemma leafCount_ne_zero (node : SplitNode) : node.leafCount ≠ 0 := by
  induction node with
  | leaf session => exact Nat.one_ne_zero
  | split d ratio first second ih _ =>
    rw [leafCount]
    omega

/-- The new pane comes right behind the one that was split, or there is nothing to split. -/
lemma leaves_replaceLeaf (node : SplitNode) :
    (focus ∉ node.leaves ∧ node.replaceLeaf focus direction newSession = (node, false)) ∨
    ∃ pre post, node.leaves = pre ++ focus :: post ∧
      (node.replaceLeaf focus direction newSession).2 = true ∧
      (node.replaceLeaf focus direction newSession).1.leaves =
        pre ++ focus :: newSession :: post := by
  induction node with
  | leaf session =>
    rw [replaceLeaf, leaves]
    split_ifs with h
    · exact .inr ⟨[], [], by rw [h]; rfl, rfl, by rw [h]; rfl⟩
    · exact .inl ⟨by simpa using Ne.symm h, rfl⟩
  | split d ratio first second ih₁ ih₂ =>
    rw [replaceLeaf, leaves]
    rcases ih₁ with ⟨hnot, hr⟩ | ⟨pre, post, hsplit, hr, hleaves⟩
    · rcases ih₂ with ⟨hnot', hr'⟩ | ⟨pre, post, hsplit, hr', hleaves⟩
      · exact .inl ⟨by simp [hnot, hnot'], by simp [hr, hr']⟩
      · refine .inr ⟨first.leaves ++ pre, post, by rw [hsplit, List.append_assoc], ?_, ?_⟩
        · simp [hr, hr']
        · simp [hr, leaves, hleaves]
    · refine .inr ⟨pre, post ++ second.leaves, by simp [hsplit], by simp [hr], ?_⟩
      simp [hr, leaves, hleaves]

lemma isLeafOf_iff {node : SplitNode} : node.isLeafOf target = true ↔ node = leaf target := by
  cases node <;> simp [isLeafOf]

/-- The pane is taken out, or nothing changes, which is so for one that is not there and for one
that is alone. -/
lemma leaves_closeLeaf (node : SplitNode) :
    ((target ∉ node.leaves ∨ node = leaf target) ∧ node.closeLeaf target = (node, false)) ∨
    ∃ pre post, node.leaves = pre ++ target :: post ∧ (∀ session, node ≠ leaf session) ∧
      (node.closeLeaf target).2 = true ∧ (node.closeLeaf target).1.leaves = pre ++ post := by
  induction node with
  | leaf session =>
    refine .inl ⟨?_, rfl⟩
    by_cases h : session = target
    · exact .inr (congrArg leaf h)
    · exact .inl (by simpa [leaves] using Ne.symm h)
  | split d ratio first second ih₁ ih₂ =>
    have hne : ∀ {first second : SplitNode} session, split d ratio first second ≠ leaf session :=
      fun session => by simp
    rw [closeLeaf, leaves]
    split_ifs with hfirst hsecond
    · rw [isLeafOf_iff.mp hfirst]
      exact .inr ⟨[], second.leaves, rfl, hne, rfl, rfl⟩
    · rw [isLeafOf_iff.mp hsecond]
      exact .inr ⟨first.leaves, [], rfl, hne, rfl, (List.append_nil _).symm⟩
    · rcases ih₁ with ⟨hnot, hr⟩ | ⟨pre, post, hsplit, -, hr, hleaves⟩
      · have hnot₁ := hnot.resolve_right fun h => hfirst (isLeafOf_iff.mpr h)
        rcases ih₂ with ⟨hnot', hr'⟩ | ⟨pre, post, hsplit, -, hr', hleaves⟩
        · have hnot₂ := hnot'.resolve_right fun h => hsecond (isLeafOf_iff.mpr h)
          exact .inl ⟨.inl (by simp [hnot₁, hnot₂]), by simp [hr, hr']⟩
        · refine .inr ⟨first.leaves ++ pre, post, by rw [hsplit, List.append_assoc], hne, ?_, ?_⟩
          · simp [hr, hr']
          · simp [hr, leaves, hleaves]
      · refine .inr ⟨pre, post ++ second.leaves, by simp [hsplit], hne, by simp [hr], ?_⟩
        simp [hr, leaves, hleaves]

end SplitNode

/-! ### The focus of a tab -/

namespace Tab

/-- The panes are different ones, and one of them has the focus if any has. -/
structure Good (tab : Tab) : Prop where
  nodup : tab.root.leaves.Nodup
  focus : ∀ x ∈ tab.focus, x ∈ tab.root.leaves

variable {tab : Tab}

/-- There is a focused pane. -/
lemma Good.exists_focused (h : tab.Good) :
    ∃ f, tab.focusedSession = some f ∧ f ∈ tab.root.leaves := by
  unfold focusedSession
  cases hfocus : tab.focus with
  | some f => exact ⟨f, rfl, h.focus f hfocus⟩
  | none =>
    obtain ⟨f, rest, hleaves⟩ := List.exists_cons_of_ne_nil tab.root.leaves_ne_nil
    rw [hleaves]
    exact ⟨f, rfl, List.mem_cons_self⟩

lemma good_single (id session : Uuid) (title : Text) : (single id title session).Good where
  nodup := List.nodup_cons.mpr ⟨List.not_mem_nil, List.nodup_nil⟩
  focus := by
    intro x hx
    obtain rfl : session = x := by simpa [single] using hx
    exact List.mem_singleton_self session

lemma leaves_split (h : tab.Good) (direction : SplitDirection) (newSession : Uuid) :
    ∃ pre f post, tab.focusedSession = some f ∧ tab.root.leaves = pre ++ f :: post ∧
      (tab.split direction newSession).root.leaves = pre ++ f :: newSession :: post := by
  obtain ⟨f, hf, hmem⟩ := h.exists_focused
  have hfocus : tab.focus.getD ((tab.root.leaves.head?).getD newSession) = f := by
    unfold focusedSession at hf
    cases htab : tab.focus with
    | some g =>
      rw [htab] at hf
      exact Option.some.inj hf
    | none =>
      rw [htab] at hf
      have hhead : tab.root.leaves.head? = some f := hf
      rw [hhead]
      rfl
  rcases tab.root.leaves_replaceLeaf with ⟨hnot, -⟩ | ⟨pre, post, hleaves, -, hnew⟩
  · exact absurd hmem hnot
  · refine ⟨pre, f, post, hf, hleaves, ?_⟩
    rw [split]
    simp only [hfocus]
    exact hnew

/-- Without a focus nothing is closed, a pane that is alone is said to be closed and stays, and any
other one is taken out. -/
lemma closeFocus_cases (h : tab.Good) :
    (tab.focus = none ∧ ∃ e, tab.closeFocus = (tab, .error e)) ∨
    (∃ f, tab.focus = some f ∧ tab.root = .leaf f ∧ tab.closeFocus = (tab, .ok ())) ∨
    ∃ pre f post, tab.focusedSession = some f ∧ tab.root.leaves = pre ++ f :: post ∧
      (∀ session, tab.root ≠ .leaf session) ∧ tab.closeFocus.2 = .ok () ∧
      tab.closeFocus.1.root.leaves = pre ++ post ∧ tab.closeFocus.1.focus = none ∧
      tab.closeFocus.1.id = tab.id := by
  unfold closeFocus
  cases hfocus : tab.focus with
  | none => exact .inl ⟨rfl, _, rfl⟩
  | some f =>
    have hfocused : tab.focusedSession = some f := by
      rw [focusedSession, hfocus]
      rfl
    rcases tab.root.leaves_closeLeaf with ⟨hnot, hr⟩ | ⟨pre, post, hleaves, hne, hr, hnew⟩
    · refine .inr (.inl ⟨f, rfl, hnot.resolve_left fun hn => hn (h.focus f hfocus), ?_⟩)
      have hsame : { tab with root := tab.root, focus := some f } = tab := by
        rw [← hfocus]
      simp [hr, SplitNode.leafCount_ne_zero, hsame]
    · refine .inr (.inr ⟨pre, f, post, hfocused, hleaves, hne, ?_⟩)
      simp [hr, SplitNode.leafCount_ne_zero, hnew]

lemma position_of_nodup {leaves : List Uuid} (h : leaves.Nodup) {p : ℕ} {session : Uuid}
    (hp : leaves[p]? = some session) : position leaves session = p := by
  obtain ⟨hlt, rfl⟩ := List.getElem?_eq_some_iff.mp hp
  rw [position, if_pos (List.getElem_mem hlt)]
  exact h.idxOf_getElem p hlt

variable {step : ℕ → ℕ → ℕ}

@[simp] lemma root_cycle : (tab.cycle step).root = tab.root := by
  unfold cycle
  split <;> rfl

@[simp] lemma id_cycle : (tab.cycle step).id = tab.id := by
  unfold cycle
  split <;> rfl

/-- The focus goes from the pane at one index to the one that the step finds. -/
lemma focusedSession_cycle (h : tab.root.leaves.Nodup) {p : ℕ} {f : Uuid}
    (hf : tab.focusedSession = some f) (hp : tab.root.leaves[p]? = some f) :
    (tab.cycle step).focusedSession =
      tab.root.leaves[step p tab.root.leaves.length % tab.root.leaves.length]? := by
  have hroot : (tab.cycle step).root = tab.root := root_cycle
  have hlen : 0 < tab.root.leaves.length := List.length_pos_iff.mpr tab.root.leaves_ne_nil
  have hpos := position_of_nodup h hp
  have hlt := Nat.mod_lt (step p tab.root.leaves.length) hlen
  have hfocus : (tab.cycle step).focus =
      tab.root.leaves[step p tab.root.leaves.length % tab.root.leaves.length]? := by
    unfold cycle
    split
    · rename_i hnil
      exact absurd hnil tab.root.leaves_ne_nil
    · rename_i first rest hleaves
      rw [hf, Option.getD_some, ← hleaves]
      simp only [hpos]
  rw [focusedSession, hfocus, List.getElem?_eq_getElem hlt]
  rfl

lemma Good.cycle (h : tab.Good) : (tab.cycle step).Good := by
  refine ⟨by rw [root_cycle]; exact h.nodup, fun x hx => ?_⟩
  obtain ⟨f, hf, hmem⟩ := h.exists_focused
  obtain ⟨p, hp⟩ := List.mem_iff_getElem?.mp hmem
  have hcycle := @focusedSession_cycle tab step h.nodup p f hf hp
  have hfocused : (tab.cycle step).focusedSession = some x := by
    rw [focusedSession, show (tab.cycle step).focus = some x from hx]
    rfl
  rw [root_cycle]
  exact List.mem_of_getElem? (hcycle.symm.trans hfocused)

/-- Going on and back, or back and on, ends at the pane that had the focus. -/
lemma focus_inverse (h : tab.Good) :
    tab.focusNext.focusPrevious.focusedSession = tab.focusedSession ∧
      tab.focusPrevious.focusNext.focusedSession = tab.focusedSession := by
  obtain ⟨f, hf, hmem⟩ := h.exists_focused
  obtain ⟨p, hp⟩ := List.mem_iff_getElem?.mp hmem
  have hlt := (List.getElem?_eq_some_iff.mp hp).1
  have key : ∀ {step back : ℕ → ℕ → ℕ},
      back (step p tab.root.leaves.length % tab.root.leaves.length) tab.root.leaves.length %
        tab.root.leaves.length = p →
      ((tab.cycle step).cycle back).focusedSession = tab.focusedSession := by
    intro step back hback
    have hq := @focusedSession_cycle tab step h.nodup p f hf hp
    have hqlt := Nat.mod_lt (step p tab.root.leaves.length)
      (List.length_pos_iff.mpr tab.root.leaves_ne_nil)
    have hroot : (tab.cycle step).root = tab.root := root_cycle
    rw [List.getElem?_eq_getElem hqlt] at hq
    have hcycle := @focusedSession_cycle (tab.cycle step) back (by rw [hroot]; exact h.nodup) _ _ hq
      (by rw [hroot]; exact List.getElem?_eq_getElem hqlt)
    rw [hcycle, hroot, hback, hp, hf]
  constructor
  · refine key ?_
    rcases Nat.lt_or_ge (p + 1) tab.root.leaves.length with hlast | hlast
    · rw [Nat.mod_eq_of_lt hlast, Nat.add_right_comm, Nat.add_sub_cancel, Nat.add_mod_right,
        Nat.mod_eq_of_lt hlt]
    · obtain rfl : p = tab.root.leaves.length - 1 := by omega
      have hsum : tab.root.leaves.length - 1 + 1 = tab.root.leaves.length := by omega
      rw [hsum, Nat.mod_self, Nat.zero_add, Nat.mod_eq_of_lt hlt]
  · refine key ?_
    rcases Nat.eq_zero_or_pos p with rfl | hpos
    · have hmod : (0 + tab.root.leaves.length - 1) % tab.root.leaves.length =
          tab.root.leaves.length - 1 := by
        rw [Nat.zero_add]
        exact Nat.mod_eq_of_lt (Nat.sub_lt hlt Nat.one_pos)
      have hsum : tab.root.leaves.length - 1 + 1 = tab.root.leaves.length := by omega
      rw [hmod, hsum, Nat.mod_self]
    · have hsum : p + tab.root.leaves.length - 1 = p - 1 + tab.root.leaves.length := by omega
      have hmod : (p - 1) % tab.root.leaves.length = p - 1 := Nat.mod_eq_of_lt (by omega)
      have hback : p - 1 + 1 = p := by omega
      rw [hsum, Nat.add_mod_right, hmod, hback, Nat.mod_eq_of_lt hlt]

end Tab

end Orchid.Terminal
