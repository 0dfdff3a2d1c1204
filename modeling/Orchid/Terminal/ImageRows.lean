import Orchid.Lib.Along
import Orchid.Terminal.Invariant

/-!
# Images and the lines they were placed on

Where a line of the scrollback and the grid stands after a motion of the emulator, which keeps its
text, and when an image that was placed on the line is moved with it.
-/

namespace Orchid.Terminal

open Lib (Along along_iff_along)

/-! ### Motions -/

/-- What moves lines. -/
inductive Motion
  | lineFeed
  | reverseLineFeed
  | setScrollRegion (top bottom : U16)
  | resize (cols rows : U16)

/-- A place after the first `n` lines are gone. -/
def trimLine (n i : ℕ) : Option ℕ := if i < n then none else some (i - n)

/-- An image after the first `n` lines are gone. -/
def StoredImage.trim (n : ℕ) (img : StoredImage) : Option StoredImage :=
  if img.absLine < n then none else some { img with absLine := img.absLine - n }

namespace EmulatorState

/-- The state after a motion; an empty size is refused. -/
def move (s : EmulatorState) : Motion → Option EmulatorState
  | .lineFeed => s.lineFeed
  | .reverseLineFeed => some s.reverseLineFeed
  | .setScrollRegion top bottom => some (s.setScrollRegion top bottom)
  | .resize cols rows => some (if cols = 0 ∨ rows = 0 then s else s.resize cols rows)

/-- The first and the last line of the scroll region. -/
def firstLine (s : EmulatorState) : ℕ := s.scrollback.length + s.scrollTop.val

def lastLine (s : EmulatorState) : ℕ := s.scrollback.length + s.scrollBottom.val

/-- How many lines are too many for the scrollback when `n` come to it. -/
def excess (s : EmulatorState) (n : ℕ) : ℕ := s.scrollback.length + n - s.scrollbackCap

/-- Where the `i`-th line of the scrollback and the grid stands after a motion, if it does. -/
def lineAfter (s : EmulatorState) (motion : Motion) (i : ℕ) : Option ℕ :=
  match motion with
  | .lineFeed =>
    if s.cursor.row ≠ s.scrollBottom then some i
    else if s.scrollTop = 0 then trimLine (s.excess 1) (if s.lastLine < i then i + 1 else i)
    else if i = s.firstLine then none
    else if s.firstLine < i ∧ i ≤ s.lastLine then some (i - 1)
    else some i
  | .reverseLineFeed =>
    if s.cursor.row ≠ s.scrollTop then some i
    else if i = s.lastLine then none
    else if s.firstLine ≤ i ∧ i < s.lastLine then some (i + 1)
    else some i
  | .setScrollRegion _ _ => some i
  | .resize cols rows =>
    if cols = 0 ∨ rows = 0 then some i else trimLine (s.excess (s.grid.length - rows.val)) i

/-- What a motion does to an image. -/
def imageAfter (s : EmulatorState) (motion : Motion) (img : StoredImage) : Option StoredImage :=
  match motion with
  | .lineFeed =>
    if s.cursor.row = s.scrollBottom ∧ s.scrollTop = 0 then img.trim (s.excess 1) else some img
  | .resize cols rows =>
    if cols = 0 ∨ rows = 0 then some img else img.trim (s.excess (s.grid.length - rows.val))
  | _ => some img

/-- A motion moves the line at a place but not an image on it, or the other way round. -/
def Displaces (s : EmulatorState) (motion : Motion) (i : ℕ) : Prop :=
  match motion with
  | .lineFeed => s.cursor.row = s.scrollBottom ∧
      if s.scrollTop = 0 then s.lastLine < i else s.firstLine ≤ i ∧ i ≤ s.lastLine
  | .reverseLineFeed => s.cursor.row = s.scrollTop ∧ s.firstLine ≤ i ∧ i ≤ s.lastLine
  | _ => False

/-- The text of the `i`-th line of the scrollback and the grid. -/
def textAt (s : EmulatorState) (i : ℕ) : Option Line := (s.lineAt i).map GridLine.cells

variable {s : EmulatorState}

lemma ok_move (h : s.Ok) (motion : Motion) : ∃ s', s.move motion = some s' ∧ s'.Ok := by
  cases motion with
  | lineFeed =>
    obtain ⟨s', hs', hok, -⟩ := ok_lineFeed h
    exact ⟨s', hs', hok⟩
  | reverseLineFeed => exact ⟨_, rfl, ok_reverseLineFeed h⟩
  | setScrollRegion top bottom => exact ⟨_, rfl, ok_setScrollRegion h top bottom⟩
  | resize cols rows =>
    refine ⟨_, rfl, ?_⟩
    split_ifs with hzero
    · exact h
    · rw [not_or] at hzero
      exact ok_resize h (Fin.pos_iff_ne_zero.mpr hzero.1) (Fin.pos_iff_ne_zero.mpr hzero.2)

/-! ### Lines that go to the scrollback -/

lemma trim_trim (img : StoredImage) (m n : ℕ) :
    ((img.trim m).bind fun img => img.trim n) = img.trim (m + n) := by
  unfold StoredImage.trim
  by_cases h : img.absLine < m
  · rw [if_pos h, if_pos (by omega)]
    rfl
  · rw [if_neg h]
    dsimp only [Option.bind_some]
    by_cases h' : img.absLine - m < n
    · rw [if_pos h', if_pos (by omega)]
    · rw [if_neg h', if_neg (by omega), Nat.sub_sub]

lemma images_shiftImageAnchors (s : EmulatorState) :
    s.shiftImageAnchors.images = s.images.filterMap fun img => img.trim 1 := by
  show (s.images.filter fun img => img.absLine ≠ 0).map _ = _
  rw [← List.filterMap_eq_map, List.filterMap_filter]
  refine List.filterMap_congr fun img _ => ?_
  by_cases h : img.absLine = 0 <;> simp [StoredImage.trim, h]

/-- A line that goes to the scrollback drops those that are too many. -/
lemma pushScrollback_spec (h : s.scrollback.length ≤ s.scrollbackCap) (line : Line) :
    (s.pushScrollback line).scrollback = (s.scrollback ++ [line]).drop (s.excess 1) ∧
    (s.pushScrollback line).images = s.images.filterMap fun img => img.trim (s.excess 1) := by
  unfold pushScrollback excess
  split_ifs with hcap hfull
  · have hnil : s.scrollback = [] := List.length_eq_zero_iff.mp (by omega)
    rw [hcap, hnil]
    exact ⟨hnil, images_shiftImageAnchors s⟩
  · have hone : s.scrollback.length + 1 - s.scrollbackCap = 1 := by omega
    rw [hone, List.drop_append_of_le_length (by omega)]
    exact ⟨rfl, images_shiftImageAnchors _⟩
  · have hzero : s.scrollback.length + 1 - s.scrollbackCap = 0 := by omega
    rw [hzero]
    exact ⟨rfl, (List.filterMap_some).symm⟩

lemma pushScrollbacks_spec (h : s.scrollback.length ≤ s.scrollbackCap) (lines : List Line) :
    (lines.foldl pushScrollback s).scrollback =
      (s.scrollback ++ lines).drop (s.excess lines.length) ∧
    (lines.foldl pushScrollback s).images =
      s.images.filterMap fun img => img.trim (s.excess lines.length) := by
  induction lines generalizing s with
  | nil =>
    have hzero : s.excess 0 = 0 := Nat.sub_eq_zero_of_le h
    rw [List.length_nil, hzero, List.append_nil]
    exact ⟨rfl, (List.filterMap_some).symm⟩
  | cons line lines ih =>
    have hpushed := pushed_pushScrollback s line
    have hcap : (s.pushScrollback line).scrollbackCap = s.scrollbackCap :=
      congrArg Screen.cap hpushed.same
    obtain ⟨hscroll, himages⟩ := pushScrollback_spec h line
    obtain ⟨ihscroll, ihimages⟩ := ih (hcap ▸ hpushed.bounded h)
    have hlen : (s.pushScrollback line).scrollback.length =
        s.scrollback.length + 1 - s.excess 1 := by
      rw [hscroll, List.length_drop, List.length_append, List.length_singleton]
    have hsum : s.excess 1 + (s.pushScrollback line).excess lines.length =
        s.excess (line :: lines).length := by
      unfold excess at *
      rw [hlen, hcap, List.length_cons]
      omega
    rw [List.foldl_cons]
    constructor
    · have hle : s.excess 1 ≤ (s.scrollback ++ [line]).length := by
        rw [List.length_append, List.length_singleton]
        exact Nat.sub_le _ _
      rw [ihscroll, hscroll, ← hsum, ← List.drop_append_of_le_length hle, List.drop_drop,
        List.append_assoc]
      rfl
    · rw [ihimages, himages, List.filterMap_filterMap, ← hsum]
      exact List.filterMap_congr fun img _ => trim_trim img _ _

/-! ### Images -/

lemma images_scrollUp (s : EmulatorState) : s.scrollUp.images = s.images := by
  unfold scrollUp
  dsimp only
  split_ifs <;> rfl

lemma images_scrollDown (s : EmulatorState) : s.scrollDown.images = s.images := by
  unfold scrollDown
  dsimp only
  split_ifs <;> rfl

lemma scrollback_scrollUp (s : EmulatorState) : s.scrollUp.scrollback = s.scrollback := by
  unfold scrollUp
  dsimp only
  split_ifs <;> rfl

lemma scrollback_scrollDown (s : EmulatorState) : s.scrollDown.scrollback = s.scrollback := by
  unfold scrollDown
  dsimp only
  split_ifs <;> rfl

lemma images_moveCursor (s : EmulatorState) (row col : U16) :
    (s.moveCursor row col).images = s.images := by
  unfold moveCursor
  split_ifs <;> rfl

lemma images_setScrollRegion (s : EmulatorState) (top bottom : U16) :
    (s.setScrollRegion top bottom).images = s.images := by
  unfold setScrollRegion
  dsimp only
  split_ifs
  · exact images_moveCursor _ _ _
  · rfl

/-- A shrinking grid gives its first rows to the scrollback. -/
lemma resize_spec (h : s.Ok) (cols rows : U16) :
    (s.resize cols rows).images = s.images.filterMap (fun img =>
      img.trim (s.excess (s.grid.length - rows.val))) ∧
    (s.resize cols rows).scrollback ++ (s.resize cols rows).grid =
      if cols = s.cols ∧ rows = s.rows then s.scrollback ++ s.grid
      else (s.scrollback ++ s.grid.map (resizeLine cols) ++
        List.replicate (rows.val - s.grid.length) (emptyRow cols)).drop
          (s.excess (s.grid.length - rows.val)) := by
  have hle : s.scrollback.length ≤ s.scrollbackCap := h.scrollback_le
  have hgrid : s.grid.length = s.rows.val := h.grid_length
  have hnone : s.excess 0 = 0 := Nat.sub_eq_zero_of_le hle
  unfold resize
  split_ifs with hsame
  · rw [hgrid, hsame.2, Nat.sub_self, hnone]
    exact ⟨(List.filterMap_some).symm, rfl⟩
  extract_lets s₁ s₂ dropped s₃ s₄ cursor
  have hlen : s₂.grid.length = s.grid.length := List.length_map _
  by_cases hgrow : s₂.grid.length < rows.val
  · have hs₄ : s₄ = { s₂ with
        grid := s₂.grid ++ List.replicate (rows.val - s₂.grid.length) (emptyRow cols) } :=
      if_pos hgrow
    have hzero : s.grid.length - rows.val = 0 := by omega
    clear_value s₄
    subst hs₄
    rw [hzero, hnone, ← hlen]
    exact ⟨(List.filterMap_some).symm, (List.append_assoc _ _ _).symm⟩
  · have hs₄ : s₄ = { s₃ with grid := s₂.grid.drop dropped } := if_neg hgrow
    have hdropped : (s₂.grid.take dropped).length = s.grid.length - rows.val := by
      rw [List.length_take, ← hlen]
      exact min_eq_left (Nat.sub_le _ _)
    have hpush := @pushScrollbacks_spec s₂ hle (s₂.grid.take dropped)
    rw [hdropped] at hpush
    clear_value s₄
    subst hs₄
    refine ⟨hpush.2, ?_⟩
    have hzero : rows.val - s.grid.length = 0 := by omega
    have hscroll : s₃.scrollback = (s.scrollback ++ s₂.grid.take dropped).drop
        (s.excess (s.grid.length - rows.val)) := hpush.1
    show s₃.scrollback ++ s₂.grid.drop dropped = _
    rw [hzero, List.replicate_zero, List.append_nil, hscroll,
      ← List.drop_append_of_le_length, List.append_assoc, List.take_append_drop]
    · rfl
    · rw [List.length_append, hdropped]
      exact Nat.sub_le _ _

lemma lineFeed_scroll (h : s.Ok) (hrow : s.cursor.row = s.scrollBottom) :
    ∃ s₁, s.saveTopRow = some s₁ ∧ s.lineFeed = some s₁.scrollUp.bumpGeneration := by
  obtain ⟨s₁, hs₁, -⟩ := ok_saveTopRow h
  refine ⟨s₁, hs₁, ?_⟩
  rw [lineFeed, if_pos hrow, hs₁]
  rfl

/-- The first row of the grid, which a region from the top gives to the scrollback. -/
lemma saveTopRow_spec (h : s.Ok) {s₁ : EmulatorState} (hs₁ : s.saveTopRow = some s₁) :
    s₁.grid = s.grid ∧ s₁.scrollTop = s.scrollTop ∧ s₁.scrollBottom = s.scrollBottom ∧
    if s.scrollTop = 0 then
      s₁.scrollback = (s.scrollback ++ s.grid.take 1).drop (s.excess 1) ∧
        s₁.images = s.images.filterMap fun img => img.trim (s.excess 1)
    else s₁ = s := by
  unfold saveTopRow at hs₁
  split_ifs at hs₁ ⊢ with htop
  · have hpos : 0 < s.grid.length := h.grid_length ▸ h.rows_pos
    rw [List.getElem?_eq_getElem hpos] at hs₁
    obtain rfl : s.pushScrollback s.grid[0] = s₁ := Option.some.inj hs₁
    have hsame := (pushed_pushScrollback s s.grid[0]).same
    have htake : s.grid.take 1 = [s.grid[0]] := by
      rw [List.take_one, List.head?_eq_getElem?, List.getElem?_eq_getElem hpos]
      rfl
    rw [htake]
    exact ⟨congrArg Screen.grid hsame, Fin.ext (congrArg Screen.top hsame),
      Fin.ext (congrArg Screen.bottom hsame), pushScrollback_spec h.scrollback_le _⟩
  · obtain rfl : s = s₁ := Option.some.inj hs₁
    exact ⟨rfl, rfl, rfl, rfl⟩

/-- Every image moves by itself. -/
lemma images_move (h : s.Ok) {motion : Motion} {s' : EmulatorState}
    (hs' : s.move motion = some s') : s'.images = s.images.filterMap (s.imageAfter motion) := by
  cases motion with
  | lineFeed =>
    unfold imageAfter
    by_cases hrow : s.cursor.row = s.scrollBottom
    · obtain ⟨s₁, hs₁, hfeed⟩ := lineFeed_scroll h hrow
      obtain rfl : s₁.scrollUp.bumpGeneration = s' := Option.some.inj (hfeed.symm.trans hs')
      obtain ⟨-, -, -, hsaved⟩ := saveTopRow_spec h hs₁
      have himages : s₁.scrollUp.bumpGeneration.images = s₁.images := images_scrollUp s₁
      rw [himages]
      split_ifs at hsaved with htop
      · simpa only [hrow, htop, and_self, if_true] using hsaved.2
      · simp only [hsaved, htop, and_false, if_false, List.filterMap_some]
    · have hfeed : s'.images = s.images := by
        rw [move, lineFeed, if_neg hrow] at hs'
        rw [← Option.some.inj hs']
        rfl
      simp only [hfeed, hrow, false_and, if_false, List.filterMap_some]
  | reverseLineFeed =>
    obtain rfl : s.reverseLineFeed = s' := Option.some.inj hs'
    have himages : s.reverseLineFeed.images = s.images := by
      unfold reverseLineFeed
      split_ifs
      · exact images_scrollDown s
      · rfl
    exact himages.trans (List.filterMap_some).symm
  | setScrollRegion top bottom =>
    obtain rfl : s.setScrollRegion top bottom = s' := Option.some.inj hs'
    exact (images_setScrollRegion s top bottom).trans (List.filterMap_some).symm
  | resize cols rows =>
    obtain rfl : (if cols = 0 ∨ rows = 0 then s else s.resize cols rows) = s' :=
      Option.some.inj hs'
    by_cases hzero : cols = 0 ∨ rows = 0
    · have hafter : s.imageAfter (.resize cols rows) = some := funext fun _ => if_pos hzero
      rw [if_pos hzero, hafter, List.filterMap_some]
    · have hafter : s.imageAfter (.resize cols rows) = fun img =>
          img.trim (s.excess (s.grid.length - rows.val)) := funext fun _ => if_neg hzero
      rw [if_neg hzero, hafter]
      exact (resize_spec h cols rows).1

/-- An image on a line is moved with it unless the motion displaces the line. -/
lemma imageAfter_iff (h : s.Ok) (motion : Motion) (img : StoredImage) :
    (s.imageAfter motion img).map StoredImage.absLine = s.lineAfter motion img.absLine ↔
      ¬ s.Displaces motion img.absLine := by
  have hline : s.firstLine ≤ s.lastLine := Nat.add_le_add_left h.top_le _
  have htrim (n : ℕ) : (img.trim n).map StoredImage.absLine = trimLine n img.absLine := by
    unfold StoredImage.trim trimLine
    split_ifs <;> rfl
  cases motion with
  | lineFeed =>
    unfold imageAfter lineAfter Displaces
    by_cases hrow : s.cursor.row = s.scrollBottom
    · by_cases htop : s.scrollTop = 0
      · simp only [hrow, htop, and_self, if_true, true_and, htrim, ne_eq, not_true_eq_false,
          if_false, not_lt]
        unfold trimLine
        have hexcess : s.excess 1 ≤ s.lastLine + 1 := by unfold excess lastLine; omega
        split_ifs with h₁ h₂ h₃ h₄ <;> simp <;> omega
      · simp only [hrow, htop, and_false, if_false, true_and, ne_eq, not_true_eq_false,
          Option.map_some]
        split_ifs with h₁ h₂ <;> simp <;> omega
    · simp [hrow]
  | reverseLineFeed =>
    unfold imageAfter lineAfter Displaces
    by_cases hrow : s.cursor.row = s.scrollTop
    · simp only [hrow, true_and, ne_eq, not_true_eq_false, if_false, Option.map_some]
      split_ifs with h₁ h₂ <;> simp <;> omega
    · simp [hrow]
  | setScrollRegion top bottom => simp [imageAfter, lineAfter, Displaces]
  | resize cols rows =>
    by_cases hzero : cols = 0 ∨ rows = 0 <;>
      simp [imageAfter, lineAfter, Displaces, hzero, htrim]

/-! ### Texts -/

lemma textAt_eq (s : EmulatorState) (i : ℕ) : s.textAt i = (s.scrollback ++ s.grid)[i]? := by
  unfold textAt lineAt
  rw [Option.map_map]
  split_ifs with h
  · rw [List.getElem?_append_left h]
    exact congrFun Option.map_id _
  · rw [List.getElem?_append_right (not_lt.mp h)]
    exact congrFun Option.map_id _

lemma textAt_bumpGeneration (s : EmulatorState) (i : ℕ) :
    s.bumpGeneration.textAt i = s.textAt i := rfl

/-- The rows after the region moved up, but for the blank one. -/
lemma grid_scrollUp (hle : s.scrollTop.val ≤ s.scrollBottom.val)
    (hbot : s.scrollBottom.val < s.grid.length) {i : ℕ} (hi : i ≠ s.scrollBottom.val) :
    s.scrollUp.grid[i]? =
      if s.scrollTop.val ≤ i ∧ i < s.scrollBottom.val then s.grid[i + 1]? else s.grid[i]? := by
  unfold scrollUp
  rw [if_pos ⟨hle, hbot⟩]
  show ((rotateRegion s.grid _ _ 1).set _ _)[i]? = _
  rw [List.getElem?_set_ne hi.symm, getElem?_rotateRegion 1 hle hbot]
  split_ifs with h₁ h₂ h₂
  · rw [Nat.mod_eq_of_lt (by omega)]
    congr 1
    omega
  · omega
  · omega
  · rfl

/-- The rows after the region moved down, but for the blank one. -/
lemma grid_scrollDown (hle : s.scrollTop.val ≤ s.scrollBottom.val)
    (hbot : s.scrollBottom.val < s.grid.length) {i : ℕ} (hi : i ≠ s.scrollTop.val) :
    s.scrollDown.grid[i]? =
      if s.scrollTop.val < i ∧ i ≤ s.scrollBottom.val then s.grid[i - 1]? else s.grid[i]? := by
  unfold scrollDown
  rw [if_pos ⟨hle, hbot⟩]
  show ((rotateRegion s.grid _ _ _).set _ _)[i]? = _
  rw [List.getElem?_set_ne hi.symm, getElem?_rotateRegion _ hle hbot]
  split_ifs with h₁ h₂ h₂
  · have hsum : i - s.scrollTop.val + (s.scrollBottom.val - s.scrollTop.val) =
        i - s.scrollTop.val - 1 + (s.scrollBottom.val + 1 - s.scrollTop.val) := by omega
    rw [hsum, Nat.add_mod_right, Nat.mod_eq_of_lt (by omega)]
    congr 1
    omega
  · omega
  · omega
  · rfl

lemma trimLine_eq_some {n i j : ℕ} : trimLine n i = some j ↔ i = n + j := by
  unfold trimLine
  split_ifs with h
  · exact iff_of_false (by simp) (by omega)
  · rw [Option.some_inj]
    omega

/-- The rows of a region from the top, with the scrollback before them. -/
lemma textAt_lineFeed_top (h : s.Ok) {s₁ : EmulatorState} (hs₁ : s.saveTopRow = some s₁)
    (htop : s.scrollTop = 0) {i j : ℕ}
    (hj : (if s.lastLine < i then i + 1 else i) = s.excess 1 + j) :
    s₁.scrollUp.textAt j = s.textAt i := by
  have hgrid : s.grid.length = s.rows.val := h.grid_length
  have hle : s.scrollback.length ≤ s.scrollbackCap := h.scrollback_le
  have hbot : s.scrollBottom.val < s.grid.length := hgrid ▸ h.bottom_lt
  obtain ⟨hg, ht, hb, hsaved⟩ := saveTopRow_spec h hs₁
  rw [if_pos htop] at hsaved
  have htake : (s.grid.take 1).length = 1 := by rw [List.length_take]; omega
  have hlen : (s.scrollback ++ s.grid.take 1).length = s.scrollback.length + 1 := by
    rw [List.length_append, htake]
  have hexcess : s.excess 1 ≤ s.scrollback.length + 1 := Nat.sub_le _ _
  have hzero : s.scrollTop.val = 0 := by rw [htop]; rfl
  have htext : s₁.scrollUp.textAt j =
      (s.scrollback ++ s.grid.take 1 ++ s₁.scrollUp.grid)[s.excess 1 + j]? := by
    rw [textAt_eq, scrollback_scrollUp, hsaved.1, ← List.drop_append_of_le_length (by omega),
      List.getElem?_drop]
  have hrow (r : ℕ) (hr : r ≠ s.scrollBottom.val) := @grid_scrollUp s₁
    (by rw [ht, hb]; exact h.top_le) (by rw [hb, hg]; exact hbot) r (by rwa [hb])
  rw [hg, hb, ht, hzero] at hrow
  rw [htext, ← hj]
  unfold lastLine
  split_ifs with hi
  · -- a line below the region
    rw [List.getElem?_append_right (by omega), hlen, hrow _ (by omega), if_neg (by omega),
      textAt_eq, List.getElem?_append_right (by omega)]
    congr 1
    omega
  · by_cases hold : i < s.scrollback.length + 1
    · -- a line of the scrollback, or the first row
      rw [List.getElem?_append_left (by omega), textAt_eq]
      by_cases hi' : i < s.scrollback.length
      · rw [List.getElem?_append_left hi', List.getElem?_append_left hi']
      · rw [List.getElem?_append_right (by omega), List.getElem?_append_right (by omega),
          List.getElem?_take_of_lt (by omega)]
    · -- another row of the region
      rw [List.getElem?_append_right (by omega), hlen, hrow _ (by omega), if_pos (by omega),
        textAt_eq, List.getElem?_append_right (by omega)]
      congr 1
      omega

/-- Where only rows of the grid move, the lines of the scrollback stay. -/
lemma textAt_of_grid {s' : EmulatorState} (hscroll : s'.scrollback = s.scrollback) {i j : ℕ}
    (hij : i < s.scrollback.length → j = i)
    (hgrid : s.scrollback.length ≤ i → s.scrollback.length ≤ j ∧
      s'.grid[j - s.scrollback.length]? = s.grid[i - s.scrollback.length]?) :
    s'.textAt j = s.textAt i := by
  rw [textAt_eq, textAt_eq, hscroll]
  by_cases hi : i < s.scrollback.length
  · rw [hij hi, List.getElem?_append_left hi, List.getElem?_append_left hi]
  · obtain ⟨hj, hrow⟩ := hgrid (not_lt.mp hi)
    rw [List.getElem?_append_right hj, List.getElem?_append_right (not_lt.mp hi), hrow]

/-- The text of a line stands where the line does, in the new width after a resize. -/
lemma textAt_move (h : s.Ok) {motion : Motion} {s' : EmulatorState}
    (hs' : s.move motion = some s') {i j : ℕ} (hi : i < s.scrollback.length + s.grid.length)
    (hj : s.lineAfter motion i = some j) :
    s'.textAt j = s.textAt i ∨ ∃ cols rows, motion = .resize cols rows ∧
      s'.textAt j = (s.textAt i).map (resizeLine cols) := by
  have hgrid : s.grid.length = s.rows.val := h.grid_length
  have hbot : s.scrollBottom.val < s.grid.length := hgrid ▸ h.bottom_lt
  have hle : s.scrollTop.val ≤ s.scrollBottom.val := h.top_le
  cases motion with
  | lineFeed =>
    left
    unfold lineAfter at hj
    by_cases hrow : s.cursor.row = s.scrollBottom
    · obtain ⟨s₁, hs₁, hfeed⟩ := lineFeed_scroll h hrow
      obtain rfl : s₁.scrollUp.bumpGeneration = s' := Option.some.inj (hfeed.symm.trans hs')
      rw [textAt_bumpGeneration]
      simp only [hrow, ne_eq, not_true_eq_false, if_false] at hj
      by_cases htop : s.scrollTop = 0
      · rw [if_pos htop] at hj
        exact textAt_lineFeed_top h hs₁ htop (trimLine_eq_some.mp hj)
      · rw [if_neg htop] at hj
        obtain ⟨-, -, -, hsaved⟩ := saveTopRow_spec h hs₁
        rw [if_neg htop] at hsaved
        subst hsaved
        unfold firstLine lastLine at hj
        split_ifs at hj with h₁ h₂ <;> cases hj
        · refine textAt_of_grid (scrollback_scrollUp _) (by omega) fun _ => ⟨by omega, ?_⟩
          rw [grid_scrollUp hle hbot (by omega), if_pos (by omega)]
          congr 1
          omega
        · refine textAt_of_grid (scrollback_scrollUp _) (fun _ => rfl) fun _ => ⟨by omega, ?_⟩
          rw [grid_scrollUp hle hbot (by omega), if_neg (by omega)]
    · rw [if_pos hrow] at hj
      cases hj
      rw [move, lineFeed, if_neg hrow] at hs'
      rw [← Option.some.inj hs']
      rfl
  | reverseLineFeed =>
    left
    obtain rfl : s.reverseLineFeed = s' := Option.some.inj hs'
    unfold lineAfter at hj
    unfold reverseLineFeed
    by_cases hrow : s.cursor.row = s.scrollTop
    · simp only [hrow, ne_eq, not_true_eq_false, if_false] at hj
      rw [if_pos hrow, textAt_bumpGeneration]
      unfold firstLine lastLine at hj
      split_ifs at hj with h₁ h₂ <;> cases hj
      · refine textAt_of_grid (scrollback_scrollDown _) (by omega) fun _ => ⟨by omega, ?_⟩
        rw [grid_scrollDown hle hbot (by omega), if_pos (by omega)]
        congr 1
        omega
      · refine textAt_of_grid (scrollback_scrollDown _) (fun _ => rfl) fun _ => ⟨by omega, ?_⟩
        rw [grid_scrollDown hle hbot (by omega), if_neg (by omega)]
    · rw [if_pos hrow] at hj
      cases hj
      rw [if_neg hrow]
      rfl
  | setScrollRegion top bottom =>
    left
    obtain rfl : s.setScrollRegion top bottom = s' := Option.some.inj hs'
    cases hj
    unfold setScrollRegion cursorPosition moveCursor
    dsimp only
    split_ifs <;> rfl
  | resize cols rows =>
    obtain rfl : (if cols = 0 ∨ rows = 0 then s else s.resize cols rows) = s' :=
      Option.some.inj hs'
    unfold lineAfter at hj
    dsimp only at hj
    split_ifs at hj ⊢ with hzero
    · cases hj
      exact .inl rfl
    · have hplace := trimLine_eq_some.mp hj
      obtain ⟨-, hlines⟩ := resize_spec h cols rows
      rw [textAt_eq, textAt_eq, hlines]
      split_ifs with hsame
      · have hnone : s.excess (s.grid.length - rows.val) = 0 := by
          rw [hgrid, hsame.2, Nat.sub_self]
          exact Nat.sub_eq_zero_of_le h.scrollback_le
        rw [hnone, Nat.zero_add] at hplace
        rw [hplace]
        exact .inl rfl
      · rw [List.getElem?_drop, ← hplace, List.getElem?_append_left (by simpa using hi)]
        by_cases hi' : i < s.scrollback.length
        · rw [List.getElem?_append_left hi', List.getElem?_append_left hi']
          exact .inl rfl
        · rw [List.getElem?_append_right (not_lt.mp hi'),
            List.getElem?_append_right (not_lt.mp hi'), List.getElem?_map]
          exact .inr ⟨cols, rows, rfl, rfl⟩

end EmulatorState

/-! ### Runs -/

/-- An image that was placed, and where the line it was placed on stands. -/
structure Placed where
  state : EmulatorState
  image : Option StoredImage
  line : Option ℕ

namespace Placed

open EmulatorState

/-- An image is placed at the cursor. -/
def place (s : EmulatorState) (id : U32) (blob : StoredBlob) : Placed where
  state := s.addImage id blob
  image := (s.addImage id blob).images.getLast?
  line := some (s.scrollback.length + s.cursor.row.val)

def next (p : Placed) (motion : Motion) : Placed where
  state := (p.state.move motion).getD p.state
  image := p.image.bind (p.state.imageAfter motion)
  line := p.line.bind (p.state.lineAfter motion)

def run (p : Placed) (motions : List Motion) : Placed := motions.foldl next p

/-- The image is where its line stands, and gone if the line is. -/
def Right (p : Placed) : Prop := p.image.map StoredImage.absLine = p.line

/-- A motion does not displace the line of the image. -/
def Clean (p : Placed) (motion : Motion) : Prop :=
  ∀ i ∈ p.line, ¬ p.state.Displaces motion i

variable {p : Placed}

lemma ok_next (h : p.state.Ok) (motion : Motion) : (p.next motion).state.Ok := by
  obtain ⟨s', hs', hok⟩ := ok_move h motion
  show ((p.state.move motion).getD p.state).Ok
  rw [hs']
  exact hok

lemma right_next_iff (h : p.state.Ok) (hp : p.Right) (motion : Motion) :
    (p.next motion).Right ↔ p.Clean motion := by
  unfold Right Clean next at *
  cases himage : p.image with
  | none =>
    rw [himage] at hp
    have hline : p.line = none := hp.symm
    simp [hline]
  | some img =>
    rw [himage] at hp
    have hline : p.line = some img.absLine := hp.symm
    rw [hline]
    simpa using imageAfter_iff h motion img

/-- What a run of motions does to an image. -/
def imageRun (s : EmulatorState) : List Motion → StoredImage → Option StoredImage
  | [], img => some img
  | motion :: motions, img =>
    (s.imageAfter motion img).bind (imageRun ((s.move motion).getD s) motions)

/-- A run does to the placed image what it does to every image of the program. -/
lemma images_run (h : p.state.Ok) (motions : List Motion) :
    (p.run motions).image = p.image.bind (imageRun p.state motions) ∧
    (p.run motions).state.images = p.state.images.filterMap (imageRun p.state motions) := by
  induction motions generalizing p with
  | nil => exact ⟨(Option.bind_fun_some p.image).symm, (List.filterMap_some).symm⟩
  | cons motion motions ih =>
    obtain ⟨s', hs', -⟩ := ok_move h motion
    have himages : (p.next motion).state.images =
        p.state.images.filterMap (p.state.imageAfter motion) := by
      show ((p.state.move motion).getD p.state).images = _
      rw [hs', Option.getD_some, images_move h hs']
    obtain ⟨himage, hrest⟩ := ih (ok_next h motion)
    refine ⟨himage.trans (Option.bind_assoc _ _ _), hrest.trans ?_⟩
    rw [himages, List.filterMap_filterMap]
    rfl

lemma getLast?_images_addImage (s : EmulatorState) (id : U32) (blob : StoredBlob) :
    ∃ img, (s.addImage id blob).images.getLast? = some img ∧
      img.absLine = s.scrollback.length + s.cursor.row.val := by
  refine ⟨⟨id, s.scrollback.length + s.cursor.row.val,
    min s.cursor.col (U16.saturatingSub s.cols 1), blob.width, blob.height, blob.rgba⟩, ?_, rfl⟩
  unfold addImage
  dsimp only
  split_ifs with hmany
  · rw [List.drop_append_of_le_length]
    · exact List.getLast?_concat
    · rw [List.length_append, List.length_singleton] at hmany
      omega
  · exact List.getLast?_concat

/-- After an image is placed, it stands on its line after every motion, and is dropped with it,
exactly where no line feed at the end of a scroll region comes while the line is below a region
from the top, or within another one, and no reverse line feed at the beginning of the region comes
while the line is within it. -/
theorem image_right_iff {s : EmulatorState} (h : s.Ok) (id : U32) (blob : StoredBlob)
    (motions : List Motion) :
    ((place s id blob).run motions).image =
      (s.addImage id blob).images.getLast?.bind (imageRun (s.addImage id blob) motions) ∧
    ((place s id blob).run motions).state.images =
      (s.addImage id blob).images.filterMap (imageRun (s.addImage id blob) motions) ∧
    (Along next (fun p motion => (p.next motion).Right) (place s id blob) motions ↔
      Along next Clean (place s id blob) motions) := by
  have hok : (place s id blob).state.Ok := h
  obtain ⟨img, himg, hline⟩ := getLast?_images_addImage s id blob
  have hright : (place s id blob).Right := by
    show (s.addImage id blob).images.getLast?.map _ = _
    rw [himg, Option.map_some, hline]
    rfl
  obtain ⟨himage, himages⟩ := images_run hok motions
  refine ⟨himage, himages, ?_⟩
  exact @along_iff_along _ _ next _ _ (fun p => p.state.Ok ∧ p.Right)
    (fun p motion hp hclean =>
      ⟨ok_next hp.1 motion, (right_next_iff hp.1 hp.2 motion).mpr hclean⟩)
    (fun p motion hp => right_next_iff hp.1 hp.2 motion) _ ⟨hok, hright⟩ motions

/-- A pixel. -/
def dot : StoredBlob := ⟨1, 1, [0, 0, 0, 0]⟩

/-- Two lines and one of scrollback. -/
def small : EmulatorState := EmulatorState.new 2 2 1

/-- The second line feed scrolls the image's line out of the grid, the third one drops both. -/
theorem image_right_scrolled :
    small.Ok ∧
    Along next (fun p motion => (p.next motion).Right) (place small 1 dot)
      [.lineFeed, .lineFeed, .lineFeed] ∧
    ((place small 1 dot).run [.lineFeed, .lineFeed]).line = some 0 ∧
    ((place small 1 dot).run [.lineFeed, .lineFeed, .lineFeed]).line = none ∧
    ((place small 1 dot).run [.lineFeed, .lineFeed, .lineFeed]).image = none := by
  have hok : small.Ok := ok_new 1 (by decide) (by decide)
  refine ⟨hok, (image_right_iff hok 1 dot _).2.2.mpr ⟨?_, ?_, ?_, trivial⟩, rfl, rfl, rfl⟩
  all_goals
    intro i hi
    cases hi
    rintro ⟨hrow, hline⟩
    revert hrow hline
    decide

/-- An image on the first row stays there when a reverse line feed moves the row down. -/
theorem not_right : ¬ ∀ (s : EmulatorState) (id : U32) (blob : StoredBlob) (motions : List Motion),
    s.Ok → ((place s id blob).run motions).Right := by
  intro h
  have hright := h (EmulatorState.new 2 2 0) 1 dot [.reverseLineFeed]
    (ok_new 0 (by decide) (by decide))
  have himage : ((place (EmulatorState.new 2 2 0) 1 dot).run [.reverseLineFeed]).image.map
      StoredImage.absLine = some 0 := rfl
  have hline : ((place (EmulatorState.new 2 2 0) 1 dot).run [.reverseLineFeed]).line = some 1 := rfl
  rw [Right, himage, hline] at hright
  cases hright

end Placed

end Orchid.Terminal
