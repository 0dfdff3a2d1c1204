import Orchid.Lib.Trace
import Orchid.Terminal.Emulator

/-!
# The grid invariant

Every operation on the grid is followed by the shape it leaves: as many rows as the emulator has, as
many cells in each row as it has columns, and the cursor, the scroll region and the viewport within
them. A row is only read where this says there is one.
-/

namespace Orchid.Terminal

/-- The part of the state that the shape is about. -/
structure Screen where
  cols : ℕ
  rows : ℕ
  cap : ℕ
  grid : List Line
  scrollback : ℕ
  viewport : ℕ
  row : ℕ
  col : ℕ
  top : ℕ
  bottom : ℕ

/-- The parts of a screen fit each other. -/
structure Screen.Fits (s : Screen) : Prop where
  cols_pos : 0 < s.cols
  rows_pos : 0 < s.rows
  grid_length : s.grid.length = s.rows
  line_length : ∀ line ∈ s.grid, line.length = s.cols
  row_lt : s.row < s.rows
  col_le : s.col ≤ s.cols
  top_le : s.top ≤ s.bottom
  bottom_lt : s.bottom < s.rows
  viewport_le : s.viewport ≤ s.scrollback
  scrollback_le : s.scrollback ≤ s.cap

namespace EmulatorState

/-- The screen of a state. -/
def screen (s : EmulatorState) : Screen where
  cols := s.cols.val
  rows := s.rows.val
  cap := s.scrollbackCap
  grid := s.grid
  scrollback := s.scrollback.length
  viewport := s.viewportOffset
  row := s.cursor.row.val
  col := s.cursor.col.val
  top := s.scrollTop.val
  bottom := s.scrollBottom.val

/-- The shape of the grid. -/
def Ok (s : EmulatorState) : Prop := s.screen.Fits

variable {s : EmulatorState}

/-! ### Rows -/

lemma length_rotateRegion (grid : List Line) (top bot n : ℕ) (h : top ≤ bot) :
    (rotateRegion grid top bot n).length = grid.length := by
  unfold rotateRegion
  simp only [List.length_append, List.length_take, List.length_rotate, List.length_drop]
  omega

/-- A row of a region that was moved round. -/
lemma getElem?_rotateRegion {grid : List Line} {top bot : ℕ} (n : ℕ) (hle : top ≤ bot)
    (hbot : bot < grid.length) (i : ℕ) :
    (rotateRegion grid top bot n)[i]? =
      if top ≤ i ∧ i ≤ bot then grid[top + (i - top + n) % (bot + 1 - top)]? else grid[i]? := by
  have htake : (grid.take top).length = top := by rw [List.length_take]; omega
  have hregion : ((grid.drop top).take (bot + 1 - top)).length = bot + 1 - top := by
    rw [List.length_take, List.length_drop]
    omega
  unfold rotateRegion
  split_ifs with hin
  · have hmod : (i - top + n) % (bot + 1 - top) < bot + 1 - top := Nat.mod_lt _ (by omega)
    rw [List.getElem?_append_right (by omega), htake,
      List.getElem?_append_left (by rw [List.length_rotate, hregion]; omega),
      List.getElem?_rotate (by rw [hregion]; omega), hregion, List.getElem?_take_of_lt hmod,
      List.getElem?_drop]
  · by_cases hi : i < top
    · rw [List.getElem?_append_left (by omega), List.getElem?_take_of_lt hi]
    · rw [List.getElem?_append_right (by omega), htake,
        List.getElem?_append_right (by rw [List.length_rotate, hregion]; omega),
        List.length_rotate, hregion, List.getElem?_drop]
      congr 1
      omega

lemma mem_of_mem_rotateRegion {grid : List Line} {top bot n : ℕ} {line : Line}
    (h : line ∈ rotateRegion grid top bot n) : line ∈ grid := by
  unfold rotateRegion at h
  rw [List.mem_append, List.mem_append, List.mem_rotate] at h
  rcases h with h | h | h
  · exact List.mem_of_mem_take h
  · exact List.mem_of_mem_drop (List.mem_of_mem_take h)
  · exact List.mem_of_mem_drop h

/-- Other rows of the same width. -/
lemma Ok.of_grid {grid : List Line} (h : s.Ok) (hlen : grid.length = s.grid.length)
    (hline : ∀ line ∈ grid, line.length = s.cols.val) : Ok { s with grid } where
  cols_pos := h.cols_pos
  rows_pos := h.rows_pos
  grid_length := hlen.trans h.grid_length
  line_length := hline
  row_lt := h.row_lt
  col_le := h.col_le
  top_le := h.top_le
  bottom_lt := h.bottom_lt
  viewport_le := h.viewport_le
  scrollback_le := h.scrollback_le

/-- The cursor at another place. -/
lemma Ok.of_cursor {cursor : CursorState} (h : s.Ok) (hrow : cursor.row.val < s.rows.val)
    (hcol : cursor.col.val ≤ s.cols.val) : Ok { s with cursor } where
  cols_pos := h.cols_pos
  rows_pos := h.rows_pos
  grid_length := h.grid_length
  line_length := h.line_length
  row_lt := hrow
  col_le := hcol
  top_le := h.top_le
  bottom_lt := h.bottom_lt
  viewport_le := h.viewport_le
  scrollback_le := h.scrollback_le

/-- The viewport at another place. -/
lemma Ok.of_viewport {viewportOffset : ℕ} (h : s.Ok)
    (hle : viewportOffset ≤ s.scrollback.length) : Ok { s with viewportOffset } where
  cols_pos := h.cols_pos
  rows_pos := h.rows_pos
  grid_length := h.grid_length
  line_length := h.line_length
  row_lt := h.row_lt
  col_le := h.col_le
  top_le := h.top_le
  bottom_lt := h.bottom_lt
  viewport_le := hle
  scrollback_le := h.scrollback_le

lemma ok_new {cols rows : U16} (cap : ℕ) (hcols : 0 < cols.val) (hrows : 0 < rows.val) :
    Ok (new cols rows cap) where
  cols_pos := hcols
  rows_pos := hrows
  grid_length := List.length_replicate
  line_length := by
    intro line hline
    rw [List.eq_of_mem_replicate hline]
    exact List.length_replicate
  row_lt := hrows
  col_le := Nat.zero_le _
  top_le := Nat.zero_le _
  bottom_lt := Nat.sub_lt hrows Nat.one_pos
  viewport_le := le_rfl
  scrollback_le := Nat.zero_le _

/-! ### Scrollback -/

/-- What a line for the scrollback leaves alone. -/
structure Pushed (s s' : EmulatorState) : Prop where
  same : s'.screen = { s.screen with scrollback := s'.scrollback.length }
  grows : s.scrollback.length ≤ s'.scrollback.length
  bounded : s.scrollback.length ≤ s.scrollbackCap → s'.scrollback.length ≤ s.scrollbackCap

lemma pushed_pushScrollback (s : EmulatorState) (line : Line) :
    Pushed s (s.pushScrollback line) := by
  unfold pushScrollback
  split_ifs with hcap hfull
  · exact ⟨rfl, le_rfl, fun h => h⟩
  · have hlen : (s.scrollback.drop 1 ++ [line]).length = s.scrollback.length := by
      rw [List.length_append, List.length_drop, List.length_singleton]
      omega
    exact ⟨rfl, hlen.ge, fun h => hlen.trans_le h⟩
  · have hlen : (s.scrollback ++ [line]).length = s.scrollback.length + 1 := by simp
    exact ⟨rfl, by rw [hlen]; omega, fun _ => by rw [hlen]; omega⟩

lemma Pushed.trans {s s' s'' : EmulatorState} (h : Pushed s s') (h' : Pushed s' s'') :
    Pushed s s'' := by
  have hcap : s'.scrollbackCap = s.scrollbackCap := congrArg Screen.cap h.same
  refine ⟨?_, h.grows.trans h'.grows, fun hle => ?_⟩
  · rw [h'.same, h.same]
  · rw [← hcap]
    exact h'.bounded (hcap ▸ h.bounded hle)

lemma pushed_foldl (lines : List Line) (s : EmulatorState) :
    Pushed s (lines.foldl pushScrollback s) := by
  induction lines generalizing s with
  | nil => exact ⟨rfl, le_rfl, fun h => h⟩
  | cons line lines ih => exact (pushed_pushScrollback s line).trans (ih _)

lemma Ok.of_pushed {s' : EmulatorState} (h : s.Ok) (hp : Pushed s s') : s'.Ok := by
  unfold Ok
  rw [hp.same]
  exact {
    cols_pos := h.cols_pos
    rows_pos := h.rows_pos
    grid_length := h.grid_length
    line_length := h.line_length
    row_lt := h.row_lt
    col_le := h.col_le
    top_le := h.top_le
    bottom_lt := h.bottom_lt
    viewport_le := h.viewport_le.trans hp.grows
    scrollback_le := hp.bounded h.scrollback_le }

/-! ### Line feeds -/

/-- The size and the column of the cursor are left alone. -/
structure SameSize (s s' : EmulatorState) : Prop where
  cols : s'.cols = s.cols
  col : s'.cursor.col = s.cursor.col

lemma ok_rotate {n i : ℕ} (h : s.Ok) (hle : s.scrollTop.val ≤ s.scrollBottom.val) :
    Ok { s with
      grid := (rotateRegion s.grid s.scrollTop.val s.scrollBottom.val n).set i (emptyRow s.cols)
      } := by
  refine h.of_grid ?_ fun line hline => ?_
  · rw [List.length_set, length_rotateRegion _ _ _ _ hle]
  · rcases List.mem_or_eq_of_mem_set hline with hline | rfl
    · exact h.line_length line (mem_of_mem_rotateRegion hline)
    · exact List.length_replicate

lemma ok_scrollUp (h : s.Ok) : s.scrollUp.Ok ∧ SameSize s s.scrollUp := by
  unfold scrollUp
  dsimp only
  split_ifs with hin
  · exact ⟨ok_rotate h hin.1, rfl, rfl⟩
  · exact ⟨h, rfl, rfl⟩

lemma ok_saveTopRow (h : s.Ok) :
    ∃ s', s.saveTopRow = some s' ∧ s'.Ok ∧ SameSize s s' := by
  unfold saveTopRow
  split_ifs
  · have hpos : 0 < s.grid.length := h.grid_length ▸ h.rows_pos
    have hpush := pushed_pushScrollback s s.grid[0]
    refine ⟨s.pushScrollback s.grid[0], ?_, h.of_pushed hpush, ?_, ?_⟩
    · rw [List.getElem?_eq_getElem hpos]
      rfl
    · exact Fin.ext (congrArg Screen.cols hpush.same)
    · exact Fin.ext (congrArg Screen.col hpush.same)
  · exact ⟨s, rfl, h, rfl, rfl⟩

lemma ok_lineFeed (h : s.Ok) : ∃ s', s.lineFeed = some s' ∧ s'.Ok ∧ SameSize s s' := by
  unfold lineFeed
  split_ifs with hrow
  · obtain ⟨s₁, hs₁, hok, hsame⟩ := ok_saveTopRow h
    obtain ⟨hup, hsame'⟩ := ok_scrollUp hok
    refine ⟨s₁.scrollUp.bumpGeneration, ?_, hup, hsame'.cols.trans hsame.cols,
      hsame'.col.trans hsame.col⟩
    rw [hs₁]
    rfl
  · refine ⟨_, rfl, ?_, rfl, rfl⟩
    have hpos := h.rows_pos
    have hone : (s.rows - 1).val < s.rows.val := by
      have hle : (1 : U16) ≤ s.rows := Fin.le_def.mpr hpos
      rw [Fin.sub_val_of_le hle]
      exact Nat.sub_lt hpos Nat.one_pos
    have hmin : (min (U16.saturatingAdd s.cursor.row 1) (s.rows - 1)).val < s.rows.val :=
      lt_of_le_of_lt (Fin.le_def.mp (min_le_right _ _)) hone
    exact h.of_cursor hmin h.col_le

/-- Some line feeds, one after the other. -/
lemma ok_lineFeeds {α : Type} (steps : List α) (h : s.Ok) :
    ∃ s', steps.foldlM (fun s _ => lineFeed s) s = some s' ∧ s'.Ok := by
  refine Lib.exists_foldlM_of_step h (fun s _ hok => ?_) steps
  obtain ⟨s', hs', hok', -⟩ := ok_lineFeed hok
  exact ⟨s', hs', hok'⟩

lemma ok_scrollDown (h : s.Ok) : s.scrollDown.Ok := by
  unfold scrollDown
  dsimp only
  split_ifs with hin
  · exact ok_rotate h hin.1
  · exact h

lemma ok_reverseLineFeed (h : s.Ok) : s.reverseLineFeed.Ok := by
  unfold reverseLineFeed
  split_ifs with hrow
  · exact ok_scrollDown h
  · exact h.of_cursor (lt_of_le_of_lt (Nat.sub_le _ _) h.row_lt) h.col_le

/-! ### The cursor -/

lemma ok_moveCursor {row col : U16} (h : s.Ok) (hrow : row.val < s.rows.val)
    (hcol : col.val ≤ s.cols.val) : (s.moveCursor row col).Ok := by
  unfold moveCursor
  split_ifs
  · exact h
  · exact h.of_cursor hrow hcol

/-- The last column and the last row are in the grid. -/
lemma Ok.last_lt (h : s.Ok) (n : U16) :
    (min n (U16.saturatingSub s.rows 1)).val < s.rows.val ∧
      (min n (U16.saturatingSub s.cols 1)).val ≤ s.cols.val := by
  constructor
  · exact lt_of_le_of_lt (Fin.le_def.mp (min_le_right _ _)) (Nat.sub_lt h.rows_pos Nat.one_pos)
  · exact le_trans (Fin.le_def.mp (min_le_right _ _)) (Nat.sub_le _ _)

lemma ok_carriageReturn (h : s.Ok) : s.carriageReturn.Ok :=
  ok_moveCursor h h.row_lt (Nat.zero_le _)

lemma ok_backspace (h : s.Ok) : s.backspace.Ok :=
  ok_moveCursor h h.row_lt ((Nat.sub_le _ _).trans h.col_le)

lemma ok_tab (h : s.Ok) : s.tab.Ok := ok_moveCursor h h.row_lt (h.last_lt _).2

lemma ok_cursorUp (h : s.Ok) (n : U16) : (s.cursorUp n).Ok := by
  refine ok_moveCursor h ?_ h.col_le
  have hup : U16.saturatingSub s.cursor.row n < s.rows := lt_of_le_of_lt (Nat.sub_le _ _) h.row_lt
  have htop : s.scrollTop < s.rows := lt_of_le_of_lt h.top_le h.bottom_lt
  exact Fin.lt_def.mp (max_lt hup htop)

lemma ok_cursorDown (h : s.Ok) (n : U16) : (s.cursorDown n).Ok :=
  ok_moveCursor h (h.last_lt _).1 h.col_le

lemma ok_cursorRight (h : s.Ok) (n : U16) : (s.cursorRight n).Ok :=
  ok_moveCursor h h.row_lt (h.last_lt _).2

lemma ok_cursorLeft (h : s.Ok) (n : U16) : (s.cursorLeft n).Ok :=
  ok_moveCursor h h.row_lt ((Nat.sub_le _ _).trans h.col_le)

lemma ok_cursorPosition (h : s.Ok) (row col : U16) : (s.cursorPosition row col).Ok :=
  ok_moveCursor h (h.last_lt _).1 (h.last_lt _).2

lemma ok_setScrollRegion (h : s.Ok) (top bottom : U16) : (s.setScrollRegion top bottom).Ok := by
  unfold setScrollRegion
  dsimp only
  split_ifs with hlt
  · refine ok_cursorPosition ?_ 1 1
    exact {
      cols_pos := h.cols_pos
      rows_pos := h.rows_pos
      grid_length := h.grid_length
      line_length := h.line_length
      row_lt := h.row_lt
      col_le := h.col_le
      top_le := Fin.le_def.mp hlt.le
      bottom_lt := (h.last_lt _).1
      viewport_le := h.viewport_le
      scrollback_le := h.scrollback_le }
  · exact h

/-! ### Writing and erasing -/

lemma ok_withRowMut {f : Line → Line} (h : s.Ok) (row : ℕ)
    (hf : ∀ line, (f line).length = line.length) : (s.withRowMut row f).Ok := by
  unfold withRowMut
  split_ifs
  · refine h.of_grid (List.length_modify ..) fun line hline => ?_
    obtain ⟨i, hi⟩ := List.mem_iff_getElem?.mp hline
    rw [List.getElem?_modify] at hi
    obtain ⟨old, hold, rfl⟩ := Option.map_eq_some_iff.mp hi
    have hlen := h.line_length old (List.mem_of_getElem? hold)
    split_ifs
    · exact (hf old).trans hlen
    · exact hlen
  · exact h

lemma screen_withRowMut (s : EmulatorState) (row : ℕ) (f : Line → Line) :
    (s.withRowMut row f).cols = s.cols ∧ (s.withRowMut row f).cursor = s.cursor ∧
      (s.withRowMut row f).rows = s.rows := by
  unfold withRowMut
  split_ifs
  · exact ⟨rfl, rfl, rfl⟩
  · exact ⟨rfl, rfl, rfl⟩

lemma ok_clearRowRange (h : s.Ok) (row src dst : ℕ) : (s.clearRowRange row src dst).Ok := by
  unfold clearRowRange
  dsimp only
  split_ifs
  · exact h
  · exact ok_withRowMut h row fun line => List.length_mapIdx

lemma ok_clearRows (h : s.Ok) (row n : ℕ) : (s.clearRows row n).Ok := by
  unfold clearRows
  generalize List.range' row n = rows
  induction rows generalizing s with
  | nil => exact h
  | cons r rows ih => exact ih (ok_clearRowRange h r 0 s.cols.val)

lemma ok_eraseInLine (h : s.Ok) (mode : U16) : (s.eraseInLine mode).Ok := by
  unfold eraseInLine
  dsimp only
  split_ifs
  · exact ok_clearRowRange h _ _ _
  · exact ok_clearRowRange h _ _ _
  · exact ok_clearRowRange h _ _ _
  · exact h

lemma ok_eraseInDisplay (h : s.Ok) (mode : U16) : (s.eraseInDisplay mode).Ok := by
  unfold eraseInDisplay
  dsimp only
  split_ifs
  · exact ok_clearRows (ok_clearRowRange h _ _ _) _ _
  · exact ok_clearRowRange (ok_clearRows h _ _) _ _ _
  · exact ok_clearRows h _ _
  · exact h

/-- There is a cell under the cursor before a character is written. -/
lemma ok_wrapLine (h : s.Ok) :
    ∃ s', s.wrapLine = some s' ∧ s'.Ok ∧ s'.cursor.col.val < s'.cols.val := by
  unfold wrapLine
  split_ifs with hcol
  · obtain ⟨s₁, hs₁, hok, hsame⟩ := ok_lineFeed (ok_carriageReturn h)
    refine ⟨s₁, hs₁, hok, ?_⟩
    have hzero : s.carriageReturn.cursor.col = 0 := by
      unfold carriageReturn moveCursor
      split_ifs with hat
      · exact hat.2.symm
      · rfl
    rw [hsame.col, hzero]
    exact hok.cols_pos
  · exact ⟨s, rfl, h, Fin.lt_def.mp (not_le.mp hcol)⟩

lemma ok_putChar (h : s.Ok) (hlt : s.cursor.col.val < s.cols.val) (ch : Char) :
    (s.putChar ch).Ok := by
  unfold putChar
  dsimp only
  generalize hcell : Cell.mk ch s.current.currentFg s.current.currentBg s.current.currentFlags =
    cell
  have hrow := ok_withRowMut h s.cursor.row.val
    (f := fun line => line.set s.cursor.col.val cell) fun line => List.length_set
  obtain ⟨hcols, hcursor, -⟩ := screen_withRowMut s s.cursor.row.val
    fun line => line.set s.cursor.col.val cell
  refine hrow.of_cursor hrow.row_lt ?_
  rw [hcursor, hcols]
  exact (Nat.min_le_left _ _).trans hlt

lemma ok_writeChar (h : s.Ok) (ch : Char) : ∃ s', s.writeChar ch = some s' ∧ s'.Ok := by
  obtain ⟨s₁, hs₁, hok, hlt⟩ := ok_wrapLine h
  refine ⟨s₁.putChar ch, ?_, ok_putChar hok hlt ch⟩
  unfold writeChar
  rw [hs₁]
  rfl

/-! ### The viewport -/

lemma ok_scrollTo (h : s.Ok) (pos : ScrollPosition) : (s.scrollTo pos).Ok := by
  unfold scrollTo
  dsimp only
  cases pos with
  | top => exact h.of_viewport le_rfl
  | bottom => exact h.of_viewport (Nat.zero_le _)
  | line n => exact h

lemma ok_scrollBy (h : s.Ok) (lines : BitVec 32) : (s.scrollBy lines).Ok := by
  unfold scrollBy
  dsimp only
  have hok : (if lines ≠ 0 then s.bumpGeneration.markFullRedraw else s).Ok := by
    split_ifs
    · exact h
    · exact h
  generalize (if lines ≠ 0 then s.bumpGeneration.markFullRedraw else s) = s₁ at hok
  split_ifs
  · exact hok.of_viewport ((Nat.sub_le _ _).trans hok.viewport_le)
  · exact hok.of_viewport (Nat.min_le_right _ _)

/-- The lines in the viewport are there, as many as the emulator has rows. -/
lemma visibleLines_of_ok (h : s.Ok) :
    ∃ lines, s.visibleLines = some lines ∧ lines.length = s.rows.val := by
  unfold visibleLines
  have hgrid : s.grid.length = s.rows.val := h.grid_length
  split_ifs with hzero
  · exact ⟨_, rfl, List.length_mapIdx.trans hgrid⟩
  · have hview : s.viewportOffset ≤ s.scrollback.length := h.viewport_le
    have hline (abs : ℕ) (hlt : abs < s.scrollback.length + s.grid.length) :
        ∃ line, s.lineAt abs = some line := by
      unfold lineAt
      split_ifs with hback
      · exact ⟨_, congrArg _ (List.getElem?_eq_getElem hback)⟩
      · have hin : abs - s.scrollback.length < s.grid.length := by omega
        exact ⟨_, congrArg _ (List.getElem?_eq_getElem hin)⟩
    have hmap (src n : ℕ) (hle : src + n ≤ s.scrollback.length + s.grid.length) :
        ∃ lines, (List.range' src n).mapM s.lineAt = some lines ∧ lines.length = n := by
      induction n generalizing src with
      | zero => exact ⟨[], rfl, rfl⟩
      | succ n ih =>
        obtain ⟨line, hat⟩ := hline src (by omega)
        obtain ⟨lines, hrest, hlen⟩ := ih (src + 1) (by omega)
        refine ⟨line :: lines, ?_, congrArg (· + 1) hlen⟩
        rw [List.range'_succ, List.mapM_cons, hat, hrest]
        rfl
    dsimp only
    obtain ⟨lines, hlines, hlen⟩ := hmap
      (s.scrollback.length + s.grid.length - s.viewportOffset - s.rows.val)
      (s.scrollback.length + s.grid.length - s.viewportOffset -
        (s.scrollback.length + s.grid.length - s.viewportOffset - s.rows.val)) (by omega)
    exact ⟨lines, hlines, hlen.trans (by omega)⟩

lemma ok_snapshot (h : s.Ok) :
    ∃ p, s.snapshot = some p ∧ p.1.lines.length = s.rows.val ∧ p.2.Ok := by
  obtain ⟨lines, hlines, hlen⟩ := visibleLines_of_ok h
  unfold snapshot
  rw [hlines]
  exact ⟨_, rfl, hlen, h⟩

/-! ### Another size -/

lemma length_resizeLine (cols : U16) (line : Line) : (resizeLine cols line).length = cols.val := by
  unfold resizeLine
  rw [List.length_append, List.length_take, List.length_replicate]
  omega

lemma length_of_mem_resizeLine {cols : U16} {grid : List Line} {line : Line}
    (h : line ∈ grid.map (resizeLine cols)) : line.length = cols.val := by
  obtain ⟨old, -, rfl⟩ := List.mem_map.mp h
  exact length_resizeLine cols old

/-- The new size of a grid that has it already. -/
lemma Ok.sized {cols rows : U16} (hcols : 0 < cols.val) (hrows : 0 < rows.val)
    (hgrid : s.grid.length = rows.val) (hline : ∀ line ∈ s.grid, line.length = cols.val)
    (hview : s.viewportOffset ≤ s.scrollback.length)
    (hscroll : s.scrollback.length ≤ s.scrollbackCap) :
    Ok { s with
      cols, rows, scrollTop := 0, scrollBottom := U16.saturatingSub rows 1
      cursor :=
        { s.cursor with
          col := min s.cursor.col (U16.saturatingSub cols 1)
          row := min s.cursor.row (U16.saturatingSub rows 1) }
      dirtyLines := List.replicate rows.val true }.markFullRedraw where
  cols_pos := hcols
  rows_pos := hrows
  grid_length := hgrid
  line_length := hline
  row_lt := lt_of_le_of_lt (Fin.le_def.mp (min_le_right _ _)) (Nat.sub_lt hrows Nat.one_pos)
  col_le := le_trans (Fin.le_def.mp (min_le_right _ _)) (Nat.sub_le _ _)
  top_le := Nat.zero_le _
  bottom_lt := Nat.sub_lt hrows Nat.one_pos
  viewport_le := hview
  scrollback_le := hscroll

lemma ok_resize {cols rows : U16} (h : s.Ok) (hcols : 0 < cols.val) (hrows : 0 < rows.val) :
    (s.resize cols rows).Ok := by
  unfold resize
  split_ifs with hsame
  · exact h
  extract_lets s₁ s₂ dropped s₃ s₄ cursor
  have hlen : s₂.grid.length = s.grid.length := List.length_map _
  have hline : ∀ line ∈ s₂.grid, line.length = cols.val := fun line => length_of_mem_resizeLine
  by_cases hgrow : s₂.grid.length < rows.val
  · have hs₄ : s₄ = { s₂ with
        grid := s₂.grid ++ List.replicate (rows.val - s₂.grid.length) (emptyRow cols) } :=
      if_pos hgrow
    clear_value s₄
    subst hs₄
    refine Ok.sized hcols hrows ?_ ?_ h.viewport_le h.scrollback_le
    · rw [List.length_append, List.length_replicate]
      exact Nat.add_sub_cancel' hgrow.le
    · intro line hmem
      rcases List.mem_append.mp hmem with hmem | hmem
      · exact hline line hmem
      · rw [List.eq_of_mem_replicate hmem]
        exact List.length_replicate
  · have hs₄ : s₄ = { s₃ with grid := s₂.grid.drop dropped } := if_neg hgrow
    clear_value s₄
    subst hs₄
    have hpush : Pushed s₂ s₃ := pushed_foldl (s₂.grid.take dropped) s₂
    have hview : s₃.viewportOffset = s.viewportOffset := congrArg Screen.viewport hpush.same
    have hcap : s₃.scrollbackCap = s.scrollbackCap := congrArg Screen.cap hpush.same
    refine Ok.sized hcols hrows ?_ ?_ ?_ ?_
    · rw [List.length_drop]
      exact Nat.sub_sub_self (not_lt.mp hgrow)
    · exact fun line hmem => hline line (List.mem_of_mem_drop hmem)
    · exact hview.trans_le (h.viewport_le.trans hpush.grows)
    · exact (hpush.bounded h.scrollback_le).trans hcap.ge

/-! ### Images -/

lemma ok_movePast (h : s.Ok) (height : U32) : ∃ s', s.movePast height = some s' ∧ s'.Ok :=
  ok_lineFeeds _ (h.of_cursor h.row_lt (Nat.zero_le _))

lemma ok_placeRgba (h : s.Ok) (id : U32) (blob : StoredBlob) (moveCursor : Bool) :
    ∃ s', s.placeRgba id blob moveCursor = some s' ∧ s'.Ok := by
  have hadd : (s.addImage id blob).Ok := h
  unfold placeRgba
  dsimp only
  split_ifs with hempty hmove
  · exact ⟨s, rfl, h⟩
  · obtain ⟨s', hs', hok⟩ := ok_movePast hadd blob.height
    refine ⟨s'.markFullRedraw.bumpGeneration, ?_, hok⟩
    rw [hs']
    rfl
  · exact ⟨_, rfl, hadd⟩

variable (d : Decoders)

lemma ok_placeSixel (h : s.Ok) (body : Bytes) :
    ∃ s', s.placeSixel d body = some s' ∧ s'.Ok := by
  unfold placeSixel
  split
  · exact ⟨s, rfl, h⟩
  · exact ok_placeRgba h _ _ _

lemma ok_transmit (h : s.Ok) (cmd : KittyCommand) (data : Bytes) :
    ∃ s', s.transmit d cmd data = some s' ∧ s'.Ok := by
  unfold transmit
  dsimp only
  split_ifs with hcap hmore hplace
  · exact ⟨_, rfl, h⟩
  · exact ⟨_, rfl, h⟩
  · split
    · exact ⟨_, rfl, h⟩
    · rename_i blob _
      have hstored : ((s.dropChunks cmd.id).storeImage d cmd.id blob).Ok := h
      exact ok_placeRgba hstored _ _ _
  · split
    · exact ⟨_, rfl, h⟩
    · exact ⟨_, rfl, h⟩

lemma ok_handleApc (h : s.Ok) (payload : Bytes) :
    ∃ s', s.handleApc d payload = some s' ∧ s'.Ok := by
  unfold handleApc
  dsimp only
  split_ifs
  · exact ⟨s, rfl, h⟩
  · exact ⟨_, rfl, h⟩
  · exact ⟨_, rfl, h⟩
  · split
    · exact ⟨s, rfl, h⟩
    · exact ok_placeRgba h _ _ _
  · exact ok_transmit d h _ _
  · exact ⟨s, rfl, h⟩

/-! ### The handler -/

lemma ok_execute (h : s.Ok) (byte : U8) : ∃ s', s.execute byte = some s' ∧ s'.Ok := by
  have hfeed : ∃ s', s.lineFeed = some s' ∧ s'.Ok := by
    obtain ⟨s', hs', hok, -⟩ := ok_lineFeed h
    exact ⟨s', hs', hok⟩
  unfold execute
  split
  · exact ⟨_, rfl, ok_backspace h⟩
  · exact ⟨_, rfl, ok_tab h⟩
  · exact hfeed
  · exact hfeed
  · exact hfeed
  · exact ⟨_, rfl, ok_carriageReturn h⟩
  · exact ⟨s, rfl, h⟩

lemma ok_csiDispatch (h : s.Ok) (params : Params) (action : Char) :
    (s.csiDispatch params action).1.Ok := by
  unfold csiDispatch
  dsimp only
  split
  · exact ok_cursorUp h _
  · exact ok_cursorDown h _
  · exact ok_cursorRight h _
  · exact ok_cursorLeft h _
  · exact ok_cursorPosition h _ _
  · exact ok_cursorPosition h _ _
  · exact ok_eraseInDisplay h _
  · exact ok_eraseInLine h _
  · exact h
  · exact ok_setScrollRegion h _ _
  · split_ifs
    · exact h
    · exact h
  · exact h

lemma ok_escDispatch (h : s.Ok) (byte : U8) : (s.escDispatch byte).Ok := by
  unfold escDispatch
  split_ifs
  · exact h.of_cursor h.rows_pos (Nat.zero_le _)
  · exact ok_reverseLineFeed h
  · exact h

lemma ok_oscDispatch (h : s.Ok) (params : List Bytes) : (s.oscDispatch d params).Ok := by
  unfold oscDispatch
  split
  · split_ifs
    · exact h
    · split
      · exact h
      · exact h
    · exact h
  · exact h

lemma ok_put (h : s.Ok) (byte : U8) : (s.put byte).Ok := by
  unfold put
  split_ifs
  · exact h
  · exact h
  · exact h

lemma ok_unhook (h : s.Ok) : ∃ s', s.unhook d = some s' ∧ s'.Ok := by
  unfold unhook
  split_ifs
  · have hdone : EmulatorState.Ok { s with dcsBuf := [] } := h
    obtain ⟨s', hs', hok⟩ := ok_placeSixel d hdone s.dcsBuf
    refine ⟨{ s' with dcsBuf := [], dcsSixel := false, dcsOverflow := false }, ?_, hok⟩
    rw [hs']
    rfl
  · exact ⟨_, rfl, h⟩

/-- Whatever the VT parser calls leaves the shape of the grid. -/
lemma ok_perform (h : s.Ok) (callback : Callback) :
    ∃ p, s.perform d callback = some p ∧ p.1.Ok := by
  cases callback with
  | print c =>
    obtain ⟨s', hs', hok⟩ := ok_writeChar h c
    refine ⟨(s', []), ?_, hok⟩
    rw [perform, hs']
    rfl
  | execute byte =>
    obtain ⟨s', hs', hok⟩ := ok_execute h byte
    refine ⟨(s', []), ?_, hok⟩
    rw [perform, hs']
    rfl
  | csiDispatch params action => exact ⟨_, rfl, ok_csiDispatch h params action⟩
  | escDispatch byte => exact ⟨_, rfl, ok_escDispatch h byte⟩
  | oscDispatch params => exact ⟨_, rfl, ok_oscDispatch d h params⟩
  | hook ignore action => exact ⟨_, rfl, h⟩
  | put byte => exact ⟨_, rfl, ok_put h byte⟩
  | unhook =>
    obtain ⟨s', hs', hok⟩ := ok_unhook d h
    refine ⟨(s', []), ?_, hok⟩
    rw [perform, hs']
    rfl

end EmulatorState

/-! ### Runs -/

namespace TerminalEmulator

open EmulatorState

variable {P : Type} (d : Decoders) (vt : Parser P)

lemma ok_handle (q : EmulatorState × Text) (callback : Callback) (h : q.1.Ok) :
    ∃ q', handle d q callback = some q' ∧ q'.1.Ok := by
  obtain ⟨r, hr, hok⟩ := ok_perform d h callback
  refine ⟨(r.1, q.2 ++ r.2), ?_, hok⟩
  rw [handle, hr]
  rfl

lemma ok_feedEvent (p : TerminalEmulator P × Text) (event : StreamEvent) (h : p.1.inner.Ok) :
    ∃ p', feedEvent d vt p event = some p' ∧ p'.1.inner.Ok := by
  cases event with
  | vt clean =>
    obtain ⟨q, hq, hok⟩ := Lib.exists_foldlM_of_step (p := fun q : EmulatorState × Text => q.1.Ok)
      (s := (p.1.inner, p.2)) h (ok_handle d) (vt.advance p.1.parser clean).2
    refine ⟨({ p.1 with inner := q.1, parser := (vt.advance p.1.parser clean).1 }, q.2), ?_, hok⟩
    rw [feedEvent, hq]
    rfl
  | apc payload =>
    obtain ⟨s', hs', hok⟩ := ok_handleApc d h payload
    refine ⟨({ p.1 with inner := s' }, p.2), ?_, hok⟩
    rw [feedEvent, hs']
    rfl

lemma ok_feed (e : TerminalEmulator P) (bytes : Bytes) (h : e.inner.Ok) :
    ∃ p, e.feed d vt bytes = some p ∧ p.1.inner.Ok :=
  Lib.exists_foldlM_of_step (p := fun q : TerminalEmulator P × Text => q.1.inner.Ok) h
    (ok_feedEvent d vt) _

lemma ok_after (e : TerminalEmulator P) (call : Call) (h : e.inner.Ok) :
    ∃ e', e.after d vt call = some e' ∧ e'.inner.Ok := by
  cases call with
  | feed bytes =>
    obtain ⟨p, hp, hok⟩ := ok_feed d vt e bytes h
    refine ⟨p.1, ?_, hok⟩
    rw [after, hp]
    rfl
  | resize cols rows =>
    refine ⟨_, rfl, ?_⟩
    unfold resize
    split_ifs with hzero
    · exact h
    · have hpos : 0 < cols.val ∧ 0 < rows.val := by
        rw [not_or] at hzero
        exact ⟨Fin.pos_iff_ne_zero.mpr hzero.1, Fin.pos_iff_ne_zero.mpr hzero.2⟩
      exact ok_resize h hpos.1 hpos.2
  | setCellPx width height =>
    refine ⟨_, rfl, ?_⟩
    unfold setCellPx
    dsimp only
    split_ifs
    · exact h
    · exact h
    · exact h
    · exact h
  | scrollTo pos => exact ⟨_, rfl, ok_scrollTo h pos⟩
  | scrollBy lines => exact ⟨_, rfl, ok_scrollBy h lines⟩
  | snapshot =>
    obtain ⟨p, hp, -, hok⟩ := ok_snapshot h
    refine ⟨{ e with inner := p.2 }, ?_, hok⟩
    rw [after, hp]
    rfl

lemma ok_run (e : TerminalEmulator P) (calls : List Call) (h : e.inner.Ok) :
    ∃ e', e.run d vt calls = some e' ∧ e'.inner.Ok :=
  Lib.exists_foldlM_of_step (p := fun e : TerminalEmulator P => e.inner.Ok) h (ok_after d vt) calls

/-- A size asked for is never zero. -/
lemma ok_new (cols rows : U16) (scrollback : ℕ) : (new vt cols rows scrollback).inner.Ok := by
  have hpos (n : U16) : 0 < (max n 1).val := lt_of_lt_of_le Nat.one_pos (le_max_right n 1)
  exact EmulatorState.ok_new scrollback (hpos cols) (hpos rows)

/-- Whatever bytes are fed and however the emulator is resized and scrolled in between, no row is
read that is not there, the rows and the cells in them are as many as the emulator has, and the
cursor, the scroll region and the viewport are within them. -/
theorem run_grid_invariant (cols rows : U16) (scrollback : ℕ) (calls : List Call) :
    ∃ e : TerminalEmulator P, (new vt cols rows scrollback).run d vt calls = some e ∧
      e.inner.grid.length = e.inner.rows.val ∧
      (∀ line ∈ e.inner.grid, line.length = e.inner.cols.val) ∧
      e.inner.cursor.row < e.inner.rows ∧ e.inner.cursor.col ≤ e.inner.cols ∧
      e.inner.scrollTop ≤ e.inner.scrollBottom ∧ e.inner.scrollBottom < e.inner.rows ∧
      e.inner.viewportOffset ≤ e.inner.scrollback.length ∧
      e.inner.scrollback.length ≤ e.inner.scrollbackCap ∧
      ∃ p, e.inner.snapshot = some p ∧ p.1.lines.length = e.inner.rows.val := by
  obtain ⟨e, he, hok⟩ := ok_run d vt _ calls (ok_new vt cols rows scrollback)
  obtain ⟨p, hp, hlen, -⟩ := ok_snapshot hok
  exact ⟨e, he, hok.grid_length, hok.line_length, hok.row_lt, hok.col_le, hok.top_le,
    hok.bottom_lt, hok.viewport_le, hok.scrollback_le, p, hp, hlen⟩

end TerminalEmulator

end Orchid.Terminal
