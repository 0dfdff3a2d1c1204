import Mathlib.Data.List.InsertIdx
import Mathlib.Data.List.Perm.Basic
import Mathlib.Data.List.Range
import Orchid.Base.Machine
import Orchid.Lib.Reordering

/-!
# The play queue

`builtin/audio_player/queue.rs` (`video_player/queue.rs` is the same file): the paths that are to be
played, the index of the current one and the order in which a shuffled queue goes through them. The
entropy of a shuffle is a linear congruential generator on 64 bits. Every command keeps the order a
permutation of the places of the list and the index at a place.
-/

namespace Orchid.Player

open Lib

/-- `RepeatMode` -/
inductive RepeatMode where
  | off
  | all
  | one
  deriving DecidableEq

/-- `cycle` -/
def RepeatMode.cycle : RepeatMode → RepeatMode
  | .off => .all
  | .all => .one
  | .one => .off

/-- `PlayQueue` -/
structure PlayQueue where
  paths : List Text
  index : ℕ
  order : List ℕ
  shuffle : Bool
  repeatMode : RepeatMode
  shuffleSeed : ℕ

/-- The next state of the generator. -/
def scramble (state : ℕ) : ℕ := (state * 6364136223846793005 + 1) % 2 ^ 64

/-- The loop of `rebuild_order`, from the index `i` down. -/
def shuffleFrom : ℕ → ℕ → List ℕ → List ℕ
  | 0, _, order => order
  | i + 1, state, order =>
    shuffleFrom i (scramble state) (swapAt (i + 1) (scramble state % (i + 2)) order)

namespace PlayQueue

variable (q : PlayQueue)

/-- The seed of `rebuild_order`. -/
def seed : ℕ :=
  (q.paths.length * 0x9E3779B9 + q.index + q.shuffleSeed * 0x85EBCA6B) % 2 ^ 64

/-- `rebuild_order` -/
def rebuildOrder : PlayQueue :=
  let order := List.range q.paths.length
  if q.shuffle && decide (1 < q.paths.length) then
    let order := shuffleFrom (order.length - 1) q.seed order
    -- the current track comes first
    match order.idxOf? q.index with
    | some pos => { q with order := swapAt 0 pos order }
    | none => { q with order }
  else { q with order }

/-- `from_paths` -/
def fromPaths (paths : List Text) (index : ℕ) (shuffle : Bool) (repeatMode : RepeatMode) :
    PlayQueue :=
  rebuildOrder
    { paths, index := min index (paths.length - 1), order := [], shuffle, repeatMode,
      shuffleSeed := 0 }

/-- `current` -/
def current : Option Text := q.paths[q.index]?

/-- The position of the current track in the shuffled order. -/
def orderPos : ℕ := (q.order.idxOf? q.index).getD 0

/-- `peek_next` -/
def peekNext : Option Text :=
  if q.paths = [] then none
  else if q.repeatMode = .one then q.current
  else if q.shuffle then
    match q.order[q.orderPos + 1]? with
    | some i => q.paths[i]?
    | none => none
  else if q.index + 1 < q.paths.length then q.paths[q.index + 1]?
  else if q.repeatMode = .all then q.paths.head?
  else none

/-- The queue with another current track, and this track. -/
def goTo (i : ℕ) : Option Text × PlayQueue := (q.paths[i]?, { q with index := i })

/-- `next` -/
def next : Option Text × PlayQueue :=
  if q.paths = [] then (none, q)
  else if q.repeatMode = .one then (q.current, q)
  else if q.shuffle then
    match q.order[q.orderPos + 1]? with
    | some i => q.goTo i
    | none =>
      if q.repeatMode = .all then q.rebuildOrder.goTo (q.rebuildOrder.order.head?.getD 0)
      else (none, q)
  else if q.index + 1 < q.paths.length then q.goTo (q.index + 1)
  else if q.repeatMode = .all then q.goTo 0
  else (none, q)

/-- `previous` -/
def previous : Option Text × PlayQueue :=
  if q.paths = [] then (none, q)
  else if q.shuffle then
    if 0 < q.orderPos then
      match q.order[q.orderPos - 1]? with
      | some i => q.goTo i
      | none => (q.current, q)
    else (q.current, q)
  else q.goTo (q.index - 1)

/-- `replace` -/
def replace (paths : List Text) (start : ℕ) : PlayQueue :=
  rebuildOrder { q with paths, index := min start (paths.length - 1) }

/-- `play_at` -/
def playAt (path : Text) : PlayQueue :=
  match q.paths.idxOf? path with
  | some i => { q with index := i }
  | none => rebuildOrder { q with paths := q.paths ++ [path], index := q.paths.length }

/-- `jump_first` -/
def jumpFirst : PlayQueue :=
  if q.paths = [] then q
  else if q.shuffle && !q.order.isEmpty then { q with index := q.order.head?.getD 0 }
  else { q with index := 0 }

/-- `jump_last` -/
def jumpLast : PlayQueue :=
  if q.paths = [] then q
  else if q.shuffle && !q.order.isEmpty then { q with index := q.order.getLast?.getD 0 }
  else { q with index := q.paths.length - 1 }

/-- `enqueue_end` -/
def enqueueEnd (path : Text) : PlayQueue :=
  if q.paths.contains path then q else rebuildOrder { q with paths := q.paths ++ [path] }

/-- `enqueue_next` -/
def enqueueNext (path : Text) : PlayQueue :=
  match q.paths.idxOf? path with
  | some i =>
    if i = q.index then q
    else
      let rest := q.paths.eraseIdx i
      let index := if i < q.index then q.index - 1 else q.index
      rebuildOrder { q with paths := rest.insertIdx (min (index + 1) rest.length) path, index }
  | none =>
    let insertAt := if q.paths = [] then 0 else min (q.index + 1) q.paths.length
    rebuildOrder { q with paths := q.paths.insertIdx insertAt path }

/-- `remove_path` -/
def removePath (path : Text) : PlayQueue :=
  match q.paths.idxOf? path with
  | none => q
  | some i =>
    let rest := q.paths.eraseIdx i
    if rest = [] then { q with paths := rest, index := 0, order := [] }
    else
      let index :=
        if i < q.index then q.index - 1
        else if i = q.index then min q.index (rest.length - 1)
        else q.index
      rebuildOrder { q with paths := rest, index }

/-- Does the list show in the shuffled order? -/
def shuffled : Bool := q.shuffle && q.order.length == q.paths.length

/-- `display_pos_of_path` -/
def displayPos (path : Text) : Option ℕ :=
  if q.shuffled then q.order.findIdx? fun i => q.paths[i]? == some path
  else q.paths.idxOf? path

/-- The tracks at two places of the list change places, and the current one stays current. -/
def swapPaths (i j : ℕ) : PlayQueue :=
  rebuildOrder
    { q with
      paths := swapAt i j q.paths
      index := if q.index = j then i else if q.index = i then j else q.index }

/-- `move_up` -/
def moveUp (path : Text) : PlayQueue :=
  match q.displayPos path with
  | none => q
  | some pos =>
    if pos = 0 then q
    else if q.shuffled then { q with order := swapAt (pos - 1) pos q.order }
    else q.swapPaths (pos - 1) pos

/-- `move_down` -/
def moveDown (path : Text) : PlayQueue :=
  match q.displayPos path with
  | none => q
  | some pos =>
    if q.shuffled then
      if q.order.length ≤ pos + 1 then q else { q with order := swapAt pos (pos + 1) q.order }
    else if q.paths.length ≤ pos + 1 then q
    else q.swapPaths (pos + 1) pos

/-- The element at a place of a list goes to another place. -/
def relocate {α : Type} (old new : ℕ) (l : List α) : List α :=
  match l[old]? with
  | some a => (l.eraseIdx old).insertIdx (min new (l.eraseIdx old).length) a
  | none => l

/-- `move_to` -/
def moveTo (path : Text) (newIndex : ℕ) : PlayQueue :=
  match q.displayPos path with
  | none => q
  | some old =>
    if q.shuffled then
      let newIndex := min newIndex (q.order.length - 1)
      if old = newIndex then q else { q with order := relocate old newIndex q.order }
    else
      let newIndex := min newIndex (q.paths.length - 1)
      if old = newIndex then q
      else
        let paths := relocate old newIndex q.paths
        let index := (q.current.bind fun cur => paths.idxOf? cur).getD q.index
        rebuildOrder { q with paths, index }

/-- `set_shuffle` -/
def setShuffle (shuffle : Bool) : PlayQueue := rebuildOrder { q with shuffle }

/-- `reshuffle_remaining` -/
def reshuffleRemaining : PlayQueue :=
  if q.paths.length < 2 then q
  else
    let seed := max ((q.shuffleSeed + 1) % 2 ^ 64) 1
    rebuildOrder
      { q with shuffle := true, shuffleSeed := (seed * 0x9E3779B9 + q.paths.length) % 2 ^ 64 }

/-- `cycle_repeat` -/
def cycleRepeat : PlayQueue := { q with repeatMode := q.repeatMode.cycle }

/-- `display_paths` -/
def displayPaths : List Text :=
  if q.shuffled && !q.order.isEmpty then q.order.filterMap fun i => q.paths[i]? else q.paths

/-- What the players set behind `replace`: the settings, and another order if it shows. -/
def settings (shuffle : Bool) (repeatMode : RepeatMode) : PlayQueue :=
  let q := { q with shuffle, repeatMode }
  if shuffle then q.rebuildOrder else q

/-- `clear-queue` of the players. -/
def clearQueue : PlayQueue := { q with paths := [], index := 0, order := [] }

end PlayQueue

/-- The changes of the list that keep what is played. -/
inductive Edit where
  | enqueueEnd (path : Text)
  | enqueueNext (path : Text)
  | removePath (path : Text)
  | moveUp (path : Text)
  | moveDown (path : Text)
  | moveTo (path : Text) (newIndex : ℕ)
  | setShuffle (shuffle : Bool)
  | reshuffleRemaining
  | cycleRepeat
  deriving DecidableEq

/-- What the players do with their queue. -/
inductive Command where
  | edit (e : Edit)
  | next
  | previous
  | playAt (path : Text)
  | jumpFirst
  | jumpLast
  | replace (paths : List Text) (start : ℕ)
  | settings (shuffle : Bool) (repeatMode : RepeatMode)
  | clearQueue

/-- The queue after an edit. -/
def PlayQueue.edit (q : PlayQueue) : Edit → PlayQueue
  | .enqueueEnd path => q.enqueueEnd path
  | .enqueueNext path => q.enqueueNext path
  | .removePath path => q.removePath path
  | .moveUp path => q.moveUp path
  | .moveDown path => q.moveDown path
  | .moveTo path newIndex => q.moveTo path newIndex
  | .setShuffle shuffle => q.setShuffle shuffle
  | .reshuffleRemaining => q.reshuffleRemaining
  | .cycleRepeat => q.cycleRepeat

/-- The queue after a command. -/
def PlayQueue.run (q : PlayQueue) : Command → PlayQueue
  | .edit e => q.edit e
  | .next => q.next.2
  | .previous => q.previous.2
  | .playAt path => q.playAt path
  | .jumpFirst => q.jumpFirst
  | .jumpLast => q.jumpLast
  | .replace paths start => q.replace paths start
  | .settings shuffle repeatMode => q.settings shuffle repeatMode
  | .clearQueue => q.clearQueue

variable {q : PlayQueue} {path p : Text}

/-! ### The order -/

lemma shuffleFrom_perm (i state : ℕ) (order : List ℕ) :
    (shuffleFrom i state order).Perm order := by
  induction i generalizing state order with
  | zero => exact .refl _
  | succ i ih => exact (ih _ _).trans (swapAt_perm _ _ _)

namespace PlayQueue

@[simp] lemma rebuildOrder_paths (q : PlayQueue) : q.rebuildOrder.paths = q.paths := by
  simp only [rebuildOrder]
  split_ifs
  · split <;> rfl
  · rfl

@[simp] lemma rebuildOrder_index (q : PlayQueue) : q.rebuildOrder.index = q.index := by
  simp only [rebuildOrder]
  split_ifs
  · split <;> rfl
  · rfl

@[simp] lemma rebuildOrder_shuffle (q : PlayQueue) : q.rebuildOrder.shuffle = q.shuffle := by
  simp only [rebuildOrder]
  split_ifs
  · split <;> rfl
  · rfl

@[simp] lemma rebuildOrder_repeatMode (q : PlayQueue) :
    q.rebuildOrder.repeatMode = q.repeatMode := by
  simp only [rebuildOrder]
  split_ifs
  · split <;> rfl
  · rfl

lemma rebuildOrder_order (q : PlayQueue) :
    q.rebuildOrder.order.Perm (List.range q.paths.length) := by
  simp only [rebuildOrder]
  split_ifs
  · split
    · exact (swapAt_perm _ _ _).trans (shuffleFrom_perm _ _ _)
    · exact shuffleFrom_perm _ _ _
  · exact .refl _

/-- The rebuilt order of a shuffled list starts at the current track. -/
lemma head?_rebuildOrder (hs : q.shuffle = true) (h : q.index < q.paths.length) :
    q.rebuildOrder.order.head? = some q.index := by
  simp only [rebuildOrder, hs, Bool.true_and, decide_eq_true_eq]
  split_ifs with hlen
  · have hperm := shuffleFrom_perm ((List.range q.paths.length).length - 1) q.seed
      (List.range q.paths.length)
    have hmem := hperm.mem_iff.mpr (List.mem_range.mpr h)
    split
    · rename_i pos hpos
      obtain ⟨hlt, hat, -⟩ := List.idxOf?_eq_some_iff.mp hpos
      have hzero : 0 < (shuffleFrom ((List.range q.paths.length).length - 1) q.seed
          (List.range q.paths.length)).length := Nat.zero_lt_of_lt hlt
      rw [List.head?_eq_getElem?, getElem?_swapAt hzero hlt, if_pos (rfl : (0 : ℕ) = 0)]
      split_ifs with heq
      · rw [heq, List.getElem?_eq_getElem hlt, hat]
      · rw [List.getElem?_eq_getElem hlt, hat]
    · rename_i hnone
      exact absurd hmem (List.idxOf?_eq_none_iff.mp hnone)
  · have hone : q.paths.length = 1 := by omega
    have hidx : q.index = 0 := by omega
    simp [hone, hidx]

/-! ### The invariant -/

/-- The order goes through the places of the list, and the index is one of them. -/
structure Good (q : PlayQueue) : Prop where
  order : q.order.Perm (List.range q.paths.length)
  index : q.index ≤ q.paths.length - 1

lemma Good.lt (h : q.Good) (hne : q.paths ≠ []) : q.index < q.paths.length := by
  have := List.length_pos_iff.mpr hne
  have := h.index
  omega

lemma Good.length_order (h : q.Good) : q.order.length = q.paths.length := by
  rw [h.order.length_eq, List.length_range]

lemma Good.nodup_order (h : q.Good) : q.order.Nodup := h.order.nodup_iff.mpr List.nodup_range

lemma Good.lt_of_mem (h : q.Good) {i : ℕ} (hi : i ∈ q.order) : i < q.paths.length :=
  List.mem_range.mp (h.order.mem_iff.mp hi)

lemma Good.shuffled_eq (h : q.Good) : q.shuffled = q.shuffle := by
  simp [shuffled, h.length_order]

lemma good_rebuildOrder (h : q.index ≤ q.paths.length - 1) : q.rebuildOrder.Good :=
  ⟨by simpa using q.rebuildOrder_order, by simpa using h⟩

/-- Another current track, at a place of the order. -/
lemma Good.goTo (h : q.Good) {i : ℕ} (hi : i ∈ q.order) : { q with index := i }.Good :=
  ⟨h.order, by have := h.lt_of_mem hi; simp only; omega⟩

lemma Good.reorder (h : q.Good) {order : List ℕ} (hperm : order.Perm q.order) :
    { q with order }.Good := ⟨hperm.trans h.order, h.index⟩

/-- A place that is found in the order, or else the first one, is a place of the order. -/
lemma Good.getD_mem (h : q.Good) (hne : q.paths ≠ []) {o : Option ℕ}
    (ho : ∀ i ∈ o, i ∈ q.order) : o.getD 0 ∈ q.order := by
  cases o with
  | none => exact h.order.mem_iff.mpr (List.mem_range.mpr (List.length_pos_iff.mpr hne))
  | some i => exact ho i rfl

lemma relocate_perm {α : Type} (old new : ℕ) (l : List α) : (relocate old new l).Perm l := by
  unfold relocate
  split
  · rename_i a ha
    obtain ⟨hlt, rfl⟩ := List.getElem?_eq_some_iff.mp ha
    exact (List.perm_insertIdx _ _ (Nat.min_le_right _ _)).trans
      (List.getElem_cons_eraseIdx_perm hlt)
  · exact .refl _

/-! ### Every command keeps the invariant -/

lemma good_next (h : q.Good) : q.next.2.Good := by
  unfold next
  split
  · exact h
  · rename_i hne
    split
    · exact h
    · split
      · split
        · rename_i i hi
          exact h.goTo (List.mem_of_getElem? hi)
        · split
          · have hg := good_rebuildOrder h.index
            exact hg.goTo (hg.getD_mem (by simpa using hne) fun i hi => List.mem_of_mem_head? hi)
          · exact h
      · split
        · rename_i hlt
          exact h.goTo (h.order.mem_iff.mpr (List.mem_range.mpr hlt))
        · split
          · exact ⟨h.order, Nat.zero_le _⟩
          · exact h

lemma good_previous (h : q.Good) : q.previous.2.Good := by
  unfold previous
  split_ifs with hne hs hpos
  · exact h
  · split
    · rename_i i hi
      exact h.goTo (List.mem_of_getElem? hi)
    · exact h
  · exact h
  · exact ⟨h.order, (Nat.sub_le _ _).trans h.index⟩

lemma good_replace (q : PlayQueue) (paths : List Text) (start : ℕ) : (q.replace paths start).Good :=
  good_rebuildOrder (Nat.min_le_right _ _)

lemma good_playAt (h : q.Good) (path : Text) : (q.playAt path).Good := by
  unfold playAt
  split
  · rename_i i hi
    obtain ⟨hlt, -⟩ := List.idxOf?_eq_some_iff.mp hi
    exact h.goTo (h.order.mem_iff.mpr (List.mem_range.mpr hlt))
  · exact good_rebuildOrder (by simp)

lemma good_jumpFirst (h : q.Good) : q.jumpFirst.Good := by
  unfold jumpFirst
  split_ifs with hne
  · exact h
  · exact h.goTo (h.getD_mem hne fun i hi => List.mem_of_mem_head? hi)
  · exact ⟨h.order, Nat.zero_le _⟩

lemma good_jumpLast (h : q.Good) : q.jumpLast.Good := by
  unfold jumpLast
  split_ifs with hne
  · exact h
  · exact h.goTo (h.getD_mem hne fun i hi => List.mem_of_getLast? hi)
  · exact ⟨h.order, le_rfl⟩

lemma good_enqueueEnd (h : q.Good) (path : Text) : (q.enqueueEnd path).Good := by
  unfold enqueueEnd
  split_ifs
  · exact h
  · refine good_rebuildOrder ?_
    have := h.index
    simp only [List.length_append, List.length_singleton]
    omega

/-- A track that moves behind the current one leaves the list as long as it was. -/
lemma length_moved {paths : List Text} {i : ℕ} (hi : i < paths.length) (n : ℕ) (path : Text) :
    ((paths.eraseIdx i).insertIdx (min n (paths.eraseIdx i).length) path).length =
      paths.length := by
  rw [List.length_insertIdx_of_le_length (Nat.min_le_right _ _), List.length_eraseIdx_of_lt hi]
  omega

lemma good_enqueueNext (h : q.Good) (path : Text) : (q.enqueueNext path).Good := by
  have hidx := h.index
  unfold enqueueNext
  split
  · rename_i i hi
    obtain ⟨hlt, -⟩ := List.idxOf?_eq_some_iff.mp hi
    split
    · exact h
    · refine good_rebuildOrder ?_
      simp only [length_moved hlt]
      split_ifs <;> omega
  · refine good_rebuildOrder ?_
    have hle : (if q.paths = [] then 0 else min (q.index + 1) q.paths.length) ≤ q.paths.length := by
      split_ifs
      · exact Nat.zero_le _
      · exact Nat.min_le_right _ _
    simp only [List.length_insertIdx_of_le_length hle]
    omega

lemma good_removePath (h : q.Good) (path : Text) : (q.removePath path).Good := by
  have hidx := h.index
  unfold removePath
  split
  · exact h
  · rename_i i hi
    obtain ⟨hlt, -⟩ := List.idxOf?_eq_some_iff.mp hi
    by_cases hnil : q.paths.eraseIdx i = []
    · simp only [if_pos hnil]
      exact ⟨by simp [hnil], Nat.zero_le _⟩
    · simp only [if_neg hnil]
      refine good_rebuildOrder ?_
      have hlen := List.length_pos_iff.mpr hnil
      have heq := List.length_eraseIdx_of_lt hlt
      simp only
      split_ifs <;> omega

lemma good_swapPaths (h : q.Good) {i j : ℕ} (hi : i < q.paths.length) (hj : j < q.paths.length) :
    (q.swapPaths i j).Good := by
  have hidx := h.index
  refine good_rebuildOrder ?_
  simp only [length_swapAt]
  split_ifs <;> omega

/-- A displayed path has a place of the list. -/
lemma Good.lt_of_displayPos (h : q.Good) {pos : ℕ} (hpos : q.displayPos path = some pos) :
    pos < q.paths.length := by
  unfold displayPos at hpos
  split_ifs at hpos
  · obtain ⟨hlt, -⟩ := List.findIdx?_eq_some_iff_getElem.mp hpos
    rwa [h.length_order] at hlt
  · obtain ⟨hlt, -⟩ := List.idxOf?_eq_some_iff.mp hpos
    exact hlt

lemma good_moveUp (h : q.Good) (path : Text) : (q.moveUp path).Good := by
  unfold moveUp
  split
  · exact h
  · rename_i pos hpos
    have hlt := h.lt_of_displayPos hpos
    split_ifs
    · exact h
    · exact h.reorder (swapAt_perm _ _ _)
    · exact good_swapPaths h (by omega) hlt

lemma good_moveDown (h : q.Good) (path : Text) : (q.moveDown path).Good := by
  unfold moveDown
  split
  · exact h
  · rename_i pos hpos
    have hlt := h.lt_of_displayPos hpos
    split_ifs with hs hend hend
    · exact h
    · exact h.reorder (swapAt_perm _ _ _)
    · exact h
    · exact good_swapPaths h (by omega) hlt

lemma good_moveTo (h : q.Good) (path : Text) (newIndex : ℕ) : (q.moveTo path newIndex).Good := by
  unfold moveTo
  split
  · exact h
  · rename_i old hold
    dsimp only
    split
    · split
      · exact h
      · exact h.reorder (relocate_perm _ _ _)
    · split
      · exact h
      · refine good_rebuildOrder ?_
        have hlen := (relocate_perm old (min newIndex (q.paths.length - 1)) q.paths).length_eq
        have hidx := h.index
        cases hfound : q.current.bind fun cur =>
            (relocate old (min newIndex (q.paths.length - 1)) q.paths).idxOf? cur with
        | none => simpa [hfound, hlen] using hidx
        | some i =>
          obtain ⟨cur, -, hi⟩ := Option.bind_eq_some_iff.mp hfound
          obtain ⟨hlt, -⟩ := List.idxOf?_eq_some_iff.mp hi
          simp only [Option.getD_some]
          omega

lemma good_reshuffleRemaining (h : q.Good) : q.reshuffleRemaining.Good := by
  unfold reshuffleRemaining
  split_ifs
  · exact h
  · exact good_rebuildOrder h.index

lemma good_settings (h : q.Good) (shuffle : Bool) (repeatMode : RepeatMode) :
    (q.settings shuffle repeatMode).Good := by
  unfold settings
  cases shuffle
  · exact ⟨h.order, h.index⟩
  · exact good_rebuildOrder h.index

lemma good_edit (h : q.Good) (e : Edit) : (q.edit e).Good := by
  cases e with
  | enqueueEnd path => exact good_enqueueEnd h path
  | enqueueNext path => exact good_enqueueNext h path
  | removePath path => exact good_removePath h path
  | moveUp path => exact good_moveUp h path
  | moveDown path => exact good_moveDown h path
  | moveTo path newIndex => exact good_moveTo h path newIndex
  | setShuffle shuffle => exact good_rebuildOrder h.index
  | reshuffleRemaining => exact good_reshuffleRemaining h
  | cycleRepeat => exact ⟨h.order, h.index⟩

lemma good_run (h : q.Good) (c : Command) : (q.run c).Good := by
  cases c with
  | edit e => exact good_edit h e
  | next => exact good_next h
  | previous => exact good_previous h
  | playAt path => exact good_playAt h path
  | jumpFirst => exact good_jumpFirst h
  | jumpLast => exact good_jumpLast h
  | replace paths start => exact good_replace q paths start
  | settings shuffle repeatMode => exact good_settings h shuffle repeatMode
  | clearQueue => exact ⟨by simp [run, clearQueue], Nat.zero_le _⟩

/-- The queue that a player starts with and what its commands make of it. -/
def after (paths : List Text) (index : ℕ) (shuffle : Bool) (repeatMode : RepeatMode)
    (commands : List Command) : PlayQueue :=
  commands.foldl run (fromPaths paths index shuffle repeatMode)

lemma good_foldl (h : q.Good) (commands : List Command) : (commands.foldl run q).Good := by
  induction commands generalizing q with
  | nil => exact h
  | cons c commands ih => exact ih (good_run h c)

lemma good_after (paths : List Text) (index : ℕ) (shuffle : Bool) (repeatMode : RepeatMode)
    (commands : List Command) : (after paths index shuffle repeatMode commands).Good :=
  good_foldl (good_rebuildOrder (Nat.min_le_right _ _)) commands

/-- Whatever a player does with its queue, the order goes through every place of the list once and
the index is a place of it. -/
theorem order_after (paths : List Text) (index : ℕ) (shuffle : Bool) (repeatMode : RepeatMode)
    (commands : List Command) {q : PlayQueue}
    (hq : q = after paths index shuffle repeatMode commands) :
    q.order.Perm (List.range q.paths.length) ∧ (q.paths ≠ [] → q.index < q.paths.length) := by
  have h : q.Good := hq ▸ good_after paths index shuffle repeatMode commands
  exact ⟨h.order, h.lt⟩

theorem order_after_removed :
    let commands : List Command := [.edit (.removePath ['b']), .next, .edit (.moveUp ['c'])]
    (after [['a'], ['b'], ['c']] 2 true .all commands).order.Perm
        (List.range (after [['a'], ['b'], ['c']] 2 true .all commands).paths.length) ∧
      ((after [['a'], ['b'], ['c']] 2 true .all commands).paths ≠ [] →
        (after [['a'], ['b'], ['c']] 2 true .all commands).index <
          (after [['a'], ['b'], ['c']] 2 true .all commands).paths.length) :=
  order_after _ _ _ _ _ rfl

end PlayQueue

end Orchid.Player
