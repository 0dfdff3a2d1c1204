import Mathlib.Data.List.Nodup
import Orchid.Player.Queue

/-!
# Listening to the play queue

What is heard of a queue that is left to itself, which track is announced, and how the list may be
edited meanwhile.
-/

namespace Orchid.Player

open Lib

variable {q : PlayQueue} {path p : Text}

namespace PlayQueue

/-! ### From the first track to the last -/

/-- The places of the list in the order in which they are played. -/
def line (q : PlayQueue) : List ℕ := if q.shuffle then q.order else List.range q.paths.length

lemma Good.line_perm (h : q.Good) : q.line.Perm (List.range q.paths.length) := by
  unfold line
  split_ifs
  · exact h.order
  · exact .refl _

lemma Good.lt_of_line (h : q.Good) {k i : ℕ} (hk : q.line[k]? = some i) : i < q.paths.length :=
  List.mem_range.mp (h.line_perm.mem_iff.mp (List.mem_of_getElem? hk))

lemma filterMap_range (l : List Text) : (List.range l.length).filterMap (l[·]?) = l := by
  induction l with
  | nil => rfl
  | cons a l ih =>
    rw [List.length_cons, List.range_succ_eq_map, List.filterMap_cons_some (b := a) (by simp),
      List.filterMap_map]
    simpa [Function.comp_def] using ih

/-- The list shows in the order in which it is played. -/
lemma Good.displayPaths_eq (h : q.Good) : q.displayPaths = q.line.filterMap (q.paths[·]?) := by
  unfold displayPaths line
  rw [h.shuffled_eq]
  cases hs : q.shuffle
  · simp [filterMap_range]
  · cases horder : q.order with
    | nil =>
      have hlen := h.length_order
      rw [horder] at hlen
      simp [List.length_eq_zero_iff.mp hlen.symm]
    | cons i order => simp

/-- Nothing is missing from the list that shows, and nothing shows twice. -/
lemma Good.displayPaths_perm (h : q.Good) : q.displayPaths.Perm q.paths := by
  rw [h.displayPaths_eq]
  conv_rhs => rw [← filterMap_range q.paths]
  exact h.line_perm.filterMap _

lemma Good.orderPos_eq (h : q.Good) {k : ℕ} (hk : q.order[k]? = some q.index) :
    q.orderPos = k := by
  obtain ⟨hlt, hat⟩ := List.getElem?_eq_some_iff.mp hk
  have hfound : q.order.idxOf? q.index = some k :=
    List.idxOf?_eq_some_iff.mpr ⟨hlt, hat, fun j hj heq =>
      hj.ne (h.nodup_order.getElem_inj_iff.mp (heq.trans hat.symm))⟩
  rw [orderPos, hfound]
  rfl

/-- Without repeating, the track behind the current one in the line is the next one. -/
lemma Good.next_eq (h : q.Good) (hoff : q.repeatMode = .off) {k : ℕ}
    (hk : q.line[k]? = some q.index) :
    q.next = match q.line[k + 1]? with
      | some j => q.goTo j
      | none => (none, q) := by
  have hne : q.paths ≠ [] := by
    intro hnil
    have := h.lt_of_line hk
    simp [hnil] at this
  unfold line at hk ⊢
  cases hs : q.shuffle
  · simp only [hs, Bool.false_eq_true, ↓reduceIte] at hk ⊢
    obtain ⟨hlt, hat⟩ := List.getElem?_eq_some_iff.mp hk
    rw [List.getElem_range] at hat
    rw [List.length_range] at hlt
    subst hat
    by_cases hnext : q.index + 1 < q.paths.length
    · simp [next, hne, hoff, hs, hnext]
    · simp [next, hne, hoff, hs, hnext]
  · simp only [hs, ↓reduceIte] at hk ⊢
    cases hnext : q.order[k + 1]? with
    | none => simp [next, hne, hoff, hs, h.orderPos_eq hk, hnext]
    | some j => simp [next, hne, hoff, hs, h.orderPos_eq hk, hnext]

/-- What is heard of the queue behind the current track, up to a number of tracks. -/
def listen : ℕ → PlayQueue → List Text
  | 0, _ => []
  | fuel + 1, q =>
    match q.next with
    | (some p, q') => p :: listen fuel q'
    | (none, _) => []

lemma Good.listen_eq {fuel : ℕ} : ∀ {q : PlayQueue}, q.Good → q.repeatMode = .off → ∀ {k : ℕ},
    q.line[k]? = some q.index → q.line.length ≤ k + 1 + fuel →
      listen fuel q = (q.line.drop (k + 1)).filterMap (q.paths[·]?) := by
  induction fuel with
  | zero =>
    intro q _ _ k _ hlen
    rw [List.drop_eq_nil_of_le hlen]
    rfl
  | succ fuel ih =>
    intro q h hoff k hk hlen
    have hnext := h.next_eq hoff hk
    cases hj : q.line[k + 1]? with
    | none =>
      rw [hj] at hnext
      rw [List.drop_eq_nil_of_le (List.getElem?_eq_none_iff.mp hj)]
      simp [listen, hnext]
    | some j =>
      obtain ⟨hlt, rfl⟩ := List.getElem?_eq_some_iff.mp hj
      have hplace := h.lt_of_line hj
      have hmem := h.line_perm.mem_iff.mp (List.mem_of_getElem? hj)
      have hrest := ih (h.goTo (h.order.mem_iff.mpr hmem)) hoff (k := k + 1) hj
        (by rw [show (line { q with index := q.line[k + 1] }) = q.line from rfl]; omega)
      have hat : q.paths[q.line[k + 1]]? = some q.paths[q.line[k + 1]] :=
        List.getElem?_eq_getElem hplace
      have hgo : q.next = (some q.paths[q.line[k + 1]], { q with index := q.line[k + 1] }) := by
        rw [hnext, hj]
        exact Prod.ext hat rfl
      rw [List.drop_eq_getElem_cons hlt, List.filterMap_cons_some hat, listen, hgo]
      exact congrArg _ hrest

lemma Good.line_jumpFirst (h : q.Good) (hne : q.paths ≠ []) :
    q.jumpFirst.line[0]? = some q.jumpFirst.index := by
  have hlen := List.length_pos_iff.mpr hne
  cases hs : q.shuffle
  · simp [jumpFirst, line, hne, hs, hlen]
  · cases horder : q.order with
    | nil =>
      have := h.length_order
      rw [horder, List.length_nil] at this
      omega
    | cons i order => simp [jumpFirst, line, hne, hs, horder]

lemma jumpFirst_displayPaths (q : PlayQueue) : q.jumpFirst.displayPaths = q.displayPaths := by
  unfold jumpFirst
  split_ifs <;> rfl

lemma jumpFirst_repeatMode (q : PlayQueue) : q.jumpFirst.repeatMode = q.repeatMode := by
  unfold jumpFirst
  split_ifs <;> rfl

lemma jumpFirst_paths (q : PlayQueue) : q.jumpFirst.paths = q.paths := by
  unfold jumpFirst
  split_ifs <;> rfl

/-- Whatever was done with the queue before, who does not repeat and listens from the first track
on hears the list as it shows, which is the list with every track once, and then silence. -/
theorem listen_jumpFirst (paths : List Text) (index : ℕ) (shuffle : Bool) (repeatMode : RepeatMode)
    (commands : List Command) {q : PlayQueue}
    (hq : q = after paths index shuffle repeatMode commands) (hoff : q.repeatMode = .off)
    {fuel : ℕ} (hfuel : q.paths.length ≤ fuel) :
    q.jumpFirst.current.toList ++ listen fuel q.jumpFirst = q.displayPaths ∧
      q.displayPaths.Perm q.paths := by
  have h : q.Good := hq ▸ good_after paths index shuffle repeatMode commands
  refine ⟨?_, h.displayPaths_perm⟩
  by_cases hne : q.paths = []
  · have hshow := h.displayPaths_perm
    rw [hne] at hshow
    rw [hshow.eq_nil]
    cases fuel <;> simp [jumpFirst, hne, current, listen, next]
  · have hg := good_jumpFirst h
    have hzero := h.line_jumpFirst hne
    have hlen : q.jumpFirst.line.length = q.paths.length := by
      rw [hg.line_perm.length_eq, List.length_range, jumpFirst_paths]
    have hplace := hg.lt_of_line hzero
    have hat : q.jumpFirst.paths[q.jumpFirst.index]? =
        some q.jumpFirst.paths[q.jumpFirst.index] := List.getElem?_eq_getElem hplace
    rw [hg.listen_eq (q.jumpFirst_repeatMode.trans hoff) hzero (by omega),
      ← q.jumpFirst_displayPaths, hg.displayPaths_eq, current, hat]
    cases hline : q.jumpFirst.line with
    | nil => simp [hline] at hzero
    | cons i line =>
      rw [hline] at hzero
      cases hzero
      rw [List.filterMap_cons_some hat]
      simp

/-- A shuffled queue behind a few commands. -/
theorem listen_jumpFirst_shuffled :
    let q := after [['a'], ['b'], ['c']] 1 true .off [.next, .edit (.moveUp ['c']), .previous]
    q.jumpFirst.current.toList ++ listen 3 q.jumpFirst = q.displayPaths ∧
      q.displayPaths.Perm q.paths :=
  listen_jumpFirst _ _ _ _ _ rfl (by decide) (by decide)

/-! ### The announced track -/

/-- The track that comes next is the announced one; where none is announced there is none, except
at the end of a shuffled line that repeats, where the current track comes once more. -/
theorem next_eq_peekNext (paths : List Text) (index : ℕ) (shuffle : Bool) (repeatMode : RepeatMode)
    (commands : List Command) {q : PlayQueue}
    (hq : q = after paths index shuffle repeatMode commands) :
    q.next.1 = (q.peekNext <|>
      if q.shuffle ∧ q.repeatMode = .all then q.current else none) := by
  have h : q.Good := hq ▸ good_after paths index shuffle repeatMode commands
  by_cases hne : q.paths = []
  · simp [next, peekNext, hne, current]
  have hlt := h.lt hne
  by_cases hone : q.repeatMode = .one
  · simp [next, peekNext, hne, hone]
  cases hs : q.shuffle
  · by_cases hnext : q.index + 1 < q.paths.length
    · simp [next, peekNext, hne, hone, hs, hnext, goTo]
    · by_cases hall : q.repeatMode = .all
      · simp [next, peekNext, hne, hs, hnext, hall, goTo, List.head?_eq_getElem?]
      · simp [next, peekNext, hne, hone, hs, hnext, hall]
  · cases hpos : q.order[q.orderPos + 1]? with
    | some i =>
      have hi := h.lt_of_mem (List.mem_of_getElem? hpos)
      simp [next, peekNext, hne, hone, hs, hpos, goTo, hi]
    | none =>
      by_cases hall : q.repeatMode = .all
      · simp [next, peekNext, hne, hs, hpos, hall, goTo, head?_rebuildOrder hs hlt, current]
      · simp [next, peekNext, hne, hone, hs, hpos, hall]

/-- At the end of a shuffled line that repeats, the same track comes once more. -/
theorem next_eq_peekNext_shuffled :
    let q := after [['a'], ['b']] 0 true .all [.jumpLast]
    q.next.1 = (q.peekNext <|> if q.shuffle ∧ q.repeatMode = .all then q.current else none) :=
  next_eq_peekNext _ _ _ _ _ rfl

/-! ### Editing the list -/

@[simp] lemma rebuildOrder_current (q : PlayQueue) : q.rebuildOrder.current = q.current := by
  simp [current]

lemma lt_of_current (h : q.current = some p) : q.index < q.paths.length :=
  (List.getElem?_eq_some_iff.mp h).1

lemma current_enqueueEnd (h : q.current = some p) (path : Text) :
    (q.enqueueEnd path).current = some p := by
  unfold enqueueEnd
  split_ifs
  · exact h
  · rw [rebuildOrder_current, current, List.getElem?_append_left (lt_of_current h)]
    exact h

/-- A track that moves behind the current one leaves it where it is. -/
lemma getElem?_moved {paths : List Text} {i k : ℕ} (hi : i < paths.length) (hk : k < paths.length)
    (hne : i ≠ k) (path : Text) :
    let k' := if i < k then k - 1 else k
    ((paths.eraseIdx i).insertIdx (min (k' + 1) (paths.eraseIdx i).length) path)[k']? =
      paths[k]? := by
  intro k'
  have hlen := List.length_eraseIdx_of_lt hi
  have hk' : k' < (paths.eraseIdx i).length := by
    simp only [k']
    split_ifs <;> omega
  rw [List.getElem?_insertIdx_of_lt (by omega), List.getElem?_eraseIdx]
  simp only [k']
  split_ifs with hik
  · omega
  · congr 1
    omega
  · rfl
  · omega

lemma current_enqueueNext (h : q.current = some p) (path : Text) :
    (q.enqueueNext path).current = some p := by
  have hlt := lt_of_current h
  unfold enqueueNext
  split
  · rename_i i hi
    obtain ⟨hi, -⟩ := List.idxOf?_eq_some_iff.mp hi
    split
    · exact h
    · rename_i hne
      rw [rebuildOrder_current, ← h]
      exact getElem?_moved hi hlt hne path
  · have hne : q.paths ≠ [] := List.length_pos_iff.mp (Nat.zero_lt_of_lt hlt)
    rw [rebuildOrder_current, ← h]
    simp only [current, if_neg hne]
    exact List.getElem?_insertIdx_of_lt (by omega)

lemma current_removePath (h : q.current = some p) (hne : path ≠ p) :
    (q.removePath path).current = some p := by
  have hlt := lt_of_current h
  unfold removePath
  split
  · exact h
  · rename_i i hi
    obtain ⟨hi, hat, -⟩ := List.idxOf?_eq_some_iff.mp hi
    have hother : i ≠ q.index := by
      rintro rfl
      rw [current, List.getElem?_eq_getElem hlt, hat] at h
      exact hne (Option.some.inj h)
    have hlen := List.length_eraseIdx_of_lt hi
    have hrest : q.paths.eraseIdx i ≠ [] := by
      apply List.ne_nil_of_length_pos
      omega
    simp only [if_neg hrest, if_neg hother, rebuildOrder_current, ← h]
    simp only [current, List.getElem?_eraseIdx]
    split_ifs
    · omega
    · congr 1
      omega
    · rfl
    · omega

lemma current_swapPaths (h : q.current = some p) {i j : ℕ} (hi : i < q.paths.length)
    (hj : j < q.paths.length) : (q.swapPaths i j).current = some p := by
  rw [swapPaths, rebuildOrder_current, ← h]
  simp only [current, getElem?_swapAt hi hj]
  split_ifs <;> simp_all

lemma current_moveUp (hg : q.Good) (h : q.current = some p) (path : Text) :
    (q.moveUp path).current = some p := by
  unfold moveUp
  split
  · exact h
  · rename_i pos hpos
    have hlt := hg.lt_of_displayPos hpos
    split_ifs
    · exact h
    · exact h
    · exact current_swapPaths h (by omega) hlt

lemma current_moveDown (hg : q.Good) (h : q.current = some p) (path : Text) :
    (q.moveDown path).current = some p := by
  unfold moveDown
  split
  · exact h
  · rename_i pos hpos
    have hlt := hg.lt_of_displayPos hpos
    split_ifs with hs hend hend
    · exact h
    · exact h
    · exact h
    · exact current_swapPaths h (by omega) hlt

lemma current_moveTo (h : q.current = some p) (path : Text) (newIndex : ℕ) :
    (q.moveTo path newIndex).current = some p := by
  unfold moveTo
  split
  · exact h
  · rename_i old hold
    dsimp only
    split
    · split <;> exact h
    · split
      · exact h
      · rw [rebuildOrder_current, h, Option.bind_some]
        have hmem : p ∈ relocate old (min newIndex (q.paths.length - 1)) q.paths :=
          (relocate_perm _ _ _).mem_iff.mpr (List.mem_of_getElem? h)
        obtain ⟨k, hk⟩ := Option.ne_none_iff_exists'.mp (mt List.idxOf?_eq_none_iff.mp
          (not_not_intro hmem))
        obtain ⟨hlt, hat, -⟩ := List.idxOf?_eq_some_iff.mp hk
        simp only [current, hk, Option.getD_some]
        rw [List.getElem?_eq_getElem hlt, hat]

/-- An edit that does not take the current track out of the list leaves it current. -/
lemma current_edit (hg : q.Good) (h : q.current = some p) {e : Edit} (he : e ≠ .removePath p) :
    (q.edit e).current = some p := by
  cases e with
  | enqueueEnd path => exact current_enqueueEnd h path
  | enqueueNext path => exact current_enqueueNext h path
  | removePath path => exact current_removePath h fun hp => he (hp ▸ rfl)
  | moveUp path => exact current_moveUp hg h path
  | moveDown path => exact current_moveDown hg h path
  | moveTo path newIndex => exact current_moveTo h path newIndex
  | setShuffle shuffle => exact (rebuildOrder_current _).trans h
  | reshuffleRemaining =>
    simp only [edit, reshuffleRemaining]
    split_ifs
    · exact h
    · exact (rebuildOrder_current _).trans h
  | cycleRepeat => exact h

/-- However the list is edited, the current track stays current as long as it is not taken out. -/
theorem current_edits (paths : List Text) (index : ℕ) (shuffle : Bool) (repeatMode : RepeatMode)
    (commands : List Command)
    (hcur : (after paths index shuffle repeatMode commands).current = some p)
    {edits : List Edit} (hedits : .removePath p ∉ edits) :
    (edits.foldl edit (after paths index shuffle repeatMode commands)).current = some p := by
  have hg := good_after paths index shuffle repeatMode commands
  generalize after paths index shuffle repeatMode commands = q at hg hcur
  induction edits generalizing q with
  | nil => exact hcur
  | cons e edits ih =>
    obtain ⟨he, hedits⟩ := not_or.mp (mt List.mem_cons.mpr hedits)
    exact ih hedits _ (good_edit hg e) (current_edit hg hcur (Ne.symm he))

/-- Moving the current track and what stands before it, in a list that is played in order. -/
theorem current_edits_moved :
    ([.moveTo ['b'] 0, .removePath ['a'], .enqueueNext ['c']].foldl edit
      (after [['a'], ['b'], ['c']] 1 false .off [])).current = some ['b'] :=
  current_edits _ _ _ _ _ (by decide) (by decide)

end PlayQueue

end Orchid.Player
