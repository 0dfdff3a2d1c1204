import Orchid.Terminal.Chunking
import Orchid.Terminal.Invariant

/-!
# Damage

A row that changes is marked, or everything is drawn again, and whatever is seen of a state changes
together with its generation. Operations that mark and draw a generation at their end only are taken
apart into steps; `Steps` is what every step keeps, `Tracks` what every operation keeps.
-/

namespace Orchid.Terminal

/-- The generation that follows. -/
def nextGeneration (g : U64) : U64 := max (g + 1) 1

namespace EmulatorState

/-- What is seen of a state. -/
structure View where
  cols : U16
  rows : U16
  grid : List Line
  scrollback : List Line
  viewportOffset : ℕ
  cursor : CursorState

def view (s : EmulatorState) : View :=
  ⟨s.cols, s.rows, s.grid, s.scrollback, s.viewportOffset, s.cursor⟩

/-- There is a mark for every row. -/
def Marked (s : EmulatorState) : Prop := s.dirtyLines.length = s.grid.length

/-- Rows that change are marked, unless everything is drawn again. -/
structure Marks (s s' : EmulatorState) : Prop where
  marked : s'.Marked
  redraw : s'.fullRedraw = false → s.fullRedraw = false ∧ s'.viewportOffset = s.viewportOffset
  keeps : s'.fullRedraw = false →
    ∀ i : ℕ, s.dirtyLines[i]? = some true → s'.dirtyLines[i]? = some true
  rows : s'.fullRedraw = false →
    ∀ i : ℕ, s'.grid[i]? = s.grid[i]? ∨ s'.dirtyLines[i]? = some true

/-- What every step keeps. -/
structure Steps (s s' : EmulatorState) : Prop where
  cap : s'.scrollbackCap = s.scrollbackCap
  marks : s.Marked → Marks s s'
  draws : ∃ n, s'.drawn = s.drawn + n ∧
    s'.contentGeneration = nextGeneration^[n] s.contentGeneration

/-- What every operation keeps. -/
structure Tracks (s s' : EmulatorState) : Prop extends Steps s s' where
  same : s'.drawn = s.drawn → s'.view = s.view

variable {s s' s'' : EmulatorState}

/-! ### Steps -/

lemma Steps.trans (h : Steps s s') (h' : Steps s' s'') : Steps s s'' where
  cap := h'.cap.trans h.cap
  marks := by
    intro hm
    have h₁ := h.marks hm
    have h₂ := h'.marks h₁.marked
    refine ⟨h₂.marked, fun hfull => ?_, fun hfull i hi => ?_, fun hfull i => ?_⟩
    · obtain ⟨hfull', hview'⟩ := h₂.redraw hfull
      obtain ⟨hfull, hview⟩ := h₁.redraw hfull'
      exact ⟨hfull, hview'.trans hview⟩
    · exact h₂.keeps hfull i (h₁.keeps (h₂.redraw hfull).1 i hi)
    · rcases h₂.rows hfull i with hrow | hrow
      · rcases h₁.rows (h₂.redraw hfull).1 i with hrow' | hrow'
        · exact Or.inl (hrow.trans hrow')
        · exact Or.inr (h₂.keeps hfull i hrow')
      · exact Or.inr hrow
  draws := by
    obtain ⟨n, hn, hg⟩ := h.draws
    obtain ⟨m, hm, hg'⟩ := h'.draws
    refine ⟨m + n, ?_, ?_⟩
    · rw [hm, hn]
      omega
    · rw [hg', hg, Function.iterate_add_apply]

/-- A step that leaves rows, marks and generation alone. -/
lemma Steps.of_eq (hgrid : s'.grid = s.grid) (hdirty : s'.dirtyLines = s.dirtyLines)
    (hfull : s'.fullRedraw = s.fullRedraw) (hview : s'.viewportOffset = s.viewportOffset)
    (hdrawn : s'.drawn = s.drawn) (hgen : s'.contentGeneration = s.contentGeneration)
    (hcap : s'.scrollbackCap = s.scrollbackCap) : Steps s s' where
  cap := hcap
  marks := by
    intro hm
    refine ⟨?_, fun h => ⟨hfull ▸ h, hview⟩, fun _ i hi => ?_, fun _ i => Or.inl ?_⟩
    · rw [Marked, hgrid, hdirty]
      exact hm
    · rw [hdirty]
      exact hi
    · rw [hgrid]
  draws := ⟨0, hdrawn, hgen⟩

lemma Steps.refl (s : EmulatorState) : Steps s s := .of_eq rfl rfl rfl rfl rfl rfl rfl

lemma steps_bumpGeneration (s : EmulatorState) : Steps s s.bumpGeneration where
  cap := rfl
  marks := fun hm => ⟨hm, fun h => ⟨h, rfl⟩, fun _ _ h => h, fun _ _ => Or.inl rfl⟩
  draws := ⟨1, rfl, rfl⟩

/-- Marks that come in on rows that stay. -/
lemma Steps.of_marks {dirtyLines : List Bool} (hlen : dirtyLines.length = s.dirtyLines.length)
    (hkeep : ∀ i : ℕ, s.dirtyLines[i]? = some true → dirtyLines[i]? = some true) :
    Steps s { s with dirtyLines } where
  cap := rfl
  marks := fun hm => ⟨hlen.trans hm, fun h => ⟨h, rfl⟩, fun _ => hkeep, fun _ _ => Or.inl rfl⟩
  draws := ⟨0, rfl, rfl⟩

lemma getElem?_set_true {dirtyLines : List Bool} {i : ℕ} (row : ℕ)
    (h : dirtyLines[i]? = some true) : (dirtyLines.set row true)[i]? = some true := by
  rw [List.getElem?_set]
  split_ifs with hrow hlt
  · rfl
  · rw [← hrow] at h
    rw [List.getElem?_eq_none (not_lt.mp hlt)] at h
    cases h
  · exact h

lemma steps_markDirtyRow (s : EmulatorState) (row : U16) : Steps s (s.markDirtyRow row) :=
  .of_marks List.length_set fun _ => getElem?_set_true row.val

lemma steps_markFullRedraw (s : EmulatorState) : Steps s s.markFullRedraw where
  cap := rfl
  marks := fun hm => ⟨(List.length_map _).trans hm, nofun, nofun, nofun⟩
  draws := ⟨0, rfl, rfl⟩

/-- A row that changes is marked. -/
lemma steps_withRowMut (s : EmulatorState) (row : ℕ) (f : Line → Line) :
    Steps s (s.withRowMut row f) := by
  unfold withRowMut
  split_ifs with hrow
  · refine ⟨rfl, fun hm => ⟨?_, fun h => ⟨h, rfl⟩, fun _ i => getElem?_set_true row,
      fun _ i => ?_⟩, 0, rfl, rfl⟩
    · exact List.length_set.trans (hm.trans (List.length_modify ..).symm)
    · dsimp only
      rw [List.getElem?_modify, List.getElem?_set]
      by_cases hi : row = i
      · refine Or.inr ?_
        rw [if_pos hi, if_pos (by rwa [hm])]
      · refine Or.inl ?_
        simp [hi]
  · exact .refl s

/-! ### Operations -/

lemma Tracks.refl (s : EmulatorState) : Tracks s s := ⟨.refl s, fun _ => rfl⟩

lemma Steps.drawn_le (h : Steps s s') : s.drawn ≤ s'.drawn := by
  obtain ⟨n, hn, -⟩ := h.draws
  exact hn ▸ Nat.le_add_right _ _

lemma Tracks.trans (h : Tracks s s') (h' : Tracks s' s'') : Tracks s s'' where
  toSteps := h.toSteps.trans h'.toSteps
  same := by
    intro hdrawn
    have hle := h.drawn_le
    have hle' := h'.drawn_le
    rw [h'.same (le_antisymm (hdrawn.trans_le hle) hle'),
      h.same (le_antisymm (hle'.trans hdrawn.le) hle)]

/-- A generation drawn at the end stands for all that was done before. -/
lemma Steps.bump (h : Steps s s') : Tracks s s'.bumpGeneration where
  toSteps := h.trans (steps_bumpGeneration s')
  same := fun hdrawn => absurd hdrawn (Nat.ne_of_gt (Nat.lt_succ_of_le h.drawn_le))

/-- An operation that changes nothing seen. -/
lemma Tracks.of_eq (hview : s'.view = s.view) (hdirty : s'.dirtyLines = s.dirtyLines)
    (hfull : s'.fullRedraw = s.fullRedraw) (hdrawn : s'.drawn = s.drawn)
    (hgen : s'.contentGeneration = s.contentGeneration) (hcap : s'.scrollbackCap = s.scrollbackCap) :
    Tracks s s' where
  toSteps := .of_eq (congrArg View.grid hview) hdirty hfull (congrArg View.viewportOffset hview)
    hdrawn hgen hcap
  same := fun _ => hview

lemma tracks_moveCursor (s : EmulatorState) (row col : U16) : Tracks s (s.moveCursor row col) := by
  unfold moveCursor
  split_ifs
  · exact .refl s
  · have hmark := steps_markDirtyRow s s.cursor.row
    have hcursor : Steps (s.markDirtyRow s.cursor.row)
        { s.markDirtyRow s.cursor.row with cursor := { s.cursor with row, col } } :=
      .of_eq rfl rfl rfl rfl rfl rfl rfl
    exact ((hmark.trans hcursor).trans (steps_markDirtyRow _ row)).bump

/-! ### Line feeds -/

/-- The rows of a region change, and all of them are marked. -/
lemma steps_rotate {n i : ℕ} (hle : s.scrollTop.val ≤ s.scrollBottom.val)
    (hlt : s.scrollBottom.val < s.grid.length)
    (hi : s.scrollTop.val ≤ i ∧ i ≤ s.scrollBottom.val) :
    Steps s ({ s with
      grid := (rotateRegion s.grid s.scrollTop.val s.scrollBottom.val n).set i (emptyRow s.cols)
      }.markDirtyRange s.scrollTop s.scrollBottom) where
  cap := rfl
  marks := by
    intro hm
    refine ⟨?_, fun h => ⟨h, rfl⟩, fun _ j hj => ?_, fun _ j => ?_⟩
    · exact List.length_mapIdx.trans (hm.trans
        ((length_rotateRegion _ _ _ _ hle).symm.trans List.length_set.symm))
    · rw [markDirtyRange, List.getElem?_mapIdx, hj]
      rfl
    · by_cases hj : j < s.scrollTop.val ∨ s.scrollBottom.val < j
      · refine Or.inl ?_
        rw [markDirtyRange, List.getElem?_set_ne (by omega)]
        rw [getElem?_rotateRegion n hle hlt, if_neg (by omega)]
      · refine Or.inr ?_
        have hin : j < s.dirtyLines.length := by
          rw [hm]
          omega
        rw [markDirtyRange, List.getElem?_mapIdx, List.getElem?_eq_getElem hin]
        simp only [Option.map_some, Option.some.injEq, Bool.or_eq_true, Bool.and_eq_true,
          decide_eq_true_eq]
        omega
  draws := ⟨0, rfl, rfl⟩

lemma steps_scrollUp (s : EmulatorState) : Steps s s.scrollUp := by
  unfold scrollUp
  dsimp only
  split_ifs with hin
  · exact steps_rotate hin.1 hin.2 ⟨hin.1, le_rfl⟩
  · exact .refl s

lemma steps_scrollDown (s : EmulatorState) : Steps s s.scrollDown := by
  unfold scrollDown
  dsimp only
  split_ifs with hin
  · exact steps_rotate hin.1 hin.2 ⟨le_rfl, hin.1⟩
  · exact .refl s

lemma steps_pushScrollback (s : EmulatorState) (line : Line) : Steps s (s.pushScrollback line) := by
  unfold pushScrollback
  split_ifs
  · exact .of_eq rfl rfl rfl rfl rfl rfl rfl
  · exact .of_eq rfl rfl rfl rfl rfl rfl rfl
  · exact .of_eq rfl rfl rfl rfl rfl rfl rfl

lemma steps_saveTopRow (h : s.saveTopRow = some s') : Steps s s' := by
  unfold saveTopRow at h
  split_ifs at h
  · obtain ⟨line, -, rfl⟩ := Option.map_eq_some_iff.mp h
    exact steps_pushScrollback s line
  · cases h
    exact .refl s

lemma tracks_lineFeed (h : s.lineFeed = some s') : Tracks s s' := by
  unfold lineFeed at h
  split_ifs at h with hrow
  · obtain ⟨s₁, hs₁, rfl⟩ := Option.map_eq_some_iff.mp h
    exact ((steps_saveTopRow hs₁).trans (steps_scrollUp s₁)).bump
  · cases h
    have hcursor : Steps s { s with
        cursor := { s.cursor with row := min (U16.saturatingAdd s.cursor.row 1) (s.rows - 1) } } :=
      .of_eq rfl rfl rfl rfl rfl rfl rfl
    exact ((hcursor.trans (steps_markDirtyRow _ _)).trans (steps_markDirtyRow _ _)).bump

lemma tracks_reverseLineFeed (s : EmulatorState) : Tracks s s.reverseLineFeed := by
  unfold reverseLineFeed
  split_ifs
  · exact (steps_scrollDown s).bump
  · have hcursor : Steps s { s with
        cursor := { s.cursor with row := U16.saturatingSub s.cursor.row 1 } } :=
      .of_eq rfl rfl rfl rfl rfl rfl rfl
    exact ((hcursor.trans (steps_markDirtyRow _ _)).trans (steps_markDirtyRow _ _)).bump

lemma tracks_cursorPosition (s : EmulatorState) (row col : U16) :
    Tracks s (s.cursorPosition row col) :=
  tracks_moveCursor s _ _

lemma tracks_setScrollRegion (s : EmulatorState) (top bottom : U16) :
    Tracks s (s.setScrollRegion top bottom) := by
  unfold setScrollRegion
  dsimp only
  split_ifs
  · refine Tracks.trans ?_ (tracks_cursorPosition _ 1 1)
    exact .of_eq rfl rfl rfl rfl rfl rfl
  · exact .refl s

/-! ### Writing and erasing -/

lemma tracks_writeChar {ch : Char} (h : s.writeChar ch = some s') : Tracks s s' := by
  obtain ⟨s₁, hs₁, rfl⟩ := Option.map_eq_some_iff.mp h
  have hwrap : Tracks s s₁ := by
    unfold wrapLine at hs₁
    split_ifs at hs₁
    · exact (tracks_moveCursor _ _ _).trans (tracks_lineFeed hs₁)
    · cases hs₁
      exact .refl s
  have hcell : Tracks s₁ (s₁.putChar ch) := by
    unfold putChar
    exact Steps.bump ((steps_withRowMut s₁ s₁.cursor.row.val _).trans
      (.of_eq rfl rfl rfl rfl rfl rfl rfl))
  exact hwrap.trans hcell

lemma tracks_clearRowRange (s : EmulatorState) (row src dst : ℕ) :
    Tracks s (s.clearRowRange row src dst) := by
  unfold clearRowRange
  dsimp only
  split_ifs
  · exact .refl s
  · exact (steps_withRowMut s row _).bump

lemma tracks_clearRows (s : EmulatorState) (row n : ℕ) : Tracks s (s.clearRows row n) := by
  unfold clearRows
  generalize List.range' row n = rows
  induction rows generalizing s with
  | nil => exact .refl s
  | cons r rows ih => exact (tracks_clearRowRange s r 0 s.cols.val).trans (ih _)

lemma tracks_eraseInLine (s : EmulatorState) (mode : U16) : Tracks s (s.eraseInLine mode) := by
  unfold eraseInLine
  dsimp only
  split_ifs
  · exact tracks_clearRowRange s _ _ _
  · exact tracks_clearRowRange s _ _ _
  · exact tracks_clearRowRange s _ _ _
  · exact .refl s

lemma tracks_eraseInDisplay (s : EmulatorState) (mode : U16) :
    Tracks s (s.eraseInDisplay mode) := by
  unfold eraseInDisplay
  dsimp only
  split_ifs
  · exact (tracks_clearRowRange s _ _ _).trans (tracks_clearRows _ _ _)
  · exact (tracks_clearRows s _ _).trans (tracks_clearRowRange _ _ _ _)
  · exact tracks_clearRows s _ _
  · exact .refl s

/-! ### The viewport and the size -/

/-- Everything is drawn again, under a new generation. -/
lemma Tracks.of_redraw (hm : s.Marked → s'.Marked) (hfull : s'.fullRedraw = true)
    (hdrawn : s'.drawn = s.drawn + 1)
    (hgen : s'.contentGeneration = nextGeneration s.contentGeneration)
    (hcap : s'.scrollbackCap = s.scrollbackCap) : Tracks s s' where
  cap := hcap
  marks := by
    intro h
    have hnot : s'.fullRedraw ≠ false := by
      rw [hfull]
      exact nofun
    exact ⟨hm h, fun h => absurd h hnot, fun h => absurd h hnot, fun h => absurd h hnot⟩
  draws := ⟨1, hdrawn, hgen⟩
  same := fun h => absurd (hdrawn.symm.trans h) (Nat.succ_ne_self _)

lemma marked_markFullRedraw (h : s.Marked) : s.markFullRedraw.Marked :=
  (List.length_map _).trans h

lemma tracks_scrollTo (s : EmulatorState) (pos : ScrollPosition) : Tracks s (s.scrollTo pos) := by
  cases pos with
  | top => exact .of_redraw marked_markFullRedraw rfl rfl rfl rfl
  | bottom => exact .of_redraw marked_markFullRedraw rfl rfl rfl rfl
  | line n => exact .of_redraw marked_markFullRedraw rfl rfl rfl rfl

lemma tracks_scrollBy (hview : s.viewportOffset ≤ s.scrollback.length)
    (hlen : s.scrollback.length < 2 ^ 64) (lines : BitVec 32) : Tracks s (s.scrollBy lines) := by
  unfold scrollBy
  by_cases hzero : lines = 0
  · have hstay : min ((s.viewportOffset + ((-lines).signExtend 64).toNat) % 2 ^ 64)
        s.scrollback.length = s.viewportOffset := by
      rw [hzero]
      have hadd : ((-(0 : BitVec 32)).signExtend 64).toNat = 0 := by decide
      rw [hadd, Nat.add_zero, Nat.mod_eq_of_lt (hview.trans_lt hlen)]
      exact min_eq_left hview
    dsimp only
    rw [if_neg (not_not.mpr hzero), if_neg (by rw [hzero]; decide), hstay]
    exact .refl s
  · dsimp only
    rw [if_pos hzero]
    split_ifs
    · exact .of_redraw marked_markFullRedraw rfl rfl rfl rfl
    · exact .of_redraw marked_markFullRedraw rfl rfl rfl rfl

/-- Lines for the scrollback draw no generation. -/
lemma foldl_pushScrollback_eq (lines : List Line) (s : EmulatorState) :
    (lines.foldl pushScrollback s).drawn = s.drawn ∧
      (lines.foldl pushScrollback s).contentGeneration = s.contentGeneration ∧
      (lines.foldl pushScrollback s).scrollbackCap = s.scrollbackCap := by
  induction lines generalizing s with
  | nil => exact ⟨rfl, rfl, rfl⟩
  | cons line lines ih =>
    obtain ⟨hdrawn, hgen, hcap⟩ := ih (s.pushScrollback line)
    have hone : (s.pushScrollback line).drawn = s.drawn ∧
        (s.pushScrollback line).contentGeneration = s.contentGeneration ∧
        (s.pushScrollback line).scrollbackCap = s.scrollbackCap := by
      unfold pushScrollback
      split_ifs
      · exact ⟨rfl, rfl, rfl⟩
      · exact ⟨rfl, rfl, rfl⟩
      · exact ⟨rfl, rfl, rfl⟩
    exact ⟨hdrawn.trans hone.1, hgen.trans hone.2.1, hcap.trans hone.2.2⟩

lemma tracks_resize {cols rows : U16} (h : s.Ok) (hcols : 0 < cols.val) (hrows : 0 < rows.val) :
    Tracks s (s.resize cols rows) := by
  have hok := (ok_resize h hcols hrows).grid_length
  unfold resize at hok ⊢
  split_ifs at hok ⊢ with hsame
  · exact .refl s
  revert hok
  extract_lets s₁ s₂ dropped s₃ s₄ cursor
  intro hok
  have hpushed := foldl_pushScrollback_eq (s₂.grid.take dropped) s₂
  have heq : s₄.drawn = s.drawn + 1 ∧
      s₄.contentGeneration = nextGeneration s.contentGeneration ∧
      s₄.scrollbackCap = s.scrollbackCap := by
    by_cases hgrow : s₂.grid.length < rows.val
    · have hs₄ : s₄ = { s₂ with
          grid := s₂.grid ++ List.replicate (rows.val - s₂.grid.length) (emptyRow cols) } :=
        if_pos hgrow
      rw [hs₄]
      exact ⟨rfl, rfl, rfl⟩
    · have hs₄ : s₄ = { s₃ with grid := s₂.grid.drop dropped } := if_neg hgrow
      rw [hs₄]
      exact hpushed
  refine .of_redraw (fun _ => ?_) rfl heq.1 heq.2.1 heq.2.2
  exact (List.length_map _).trans (List.length_replicate.trans hok.symm)

/-! ### Images -/

lemma tracks_placeRgba {id : U32} {blob : StoredBlob} {moveCursor : Bool}
    (h : s.placeRgba id blob moveCursor = some s') : Tracks s s' := by
  have hadd : Steps s (s.addImage id blob) := .of_eq rfl rfl rfl rfl rfl rfl rfl
  unfold placeRgba at h
  dsimp only at h
  split_ifs at h with hempty hmove
  · cases h
    exact .refl s
  · obtain ⟨s₁, hs₁, rfl⟩ := Option.map_eq_some_iff.mp h
    have hcol : Steps (s.addImage id blob) { s.addImage id blob with
        cursor := { s.cursor with col := 0 } } := .of_eq rfl rfl rfl rfl rfl rfl rfl
    unfold movePast at hs₁
    have hfeeds : Steps { s.addImage id blob with cursor := { s.cursor with col := 0 } } s₁ :=
      @Lib.rel_of_foldlM _ _ (fun s (_ : ℕ) => s.lineFeed) Steps .refl (fun _ _ _ => .trans)
        (fun _ _ _ h => (tracks_lineFeed h).toSteps) _ _ _ hs₁
    have hpast : Steps s s₁ := (hadd.trans hcol).trans hfeeds
    exact (hpast.trans (steps_markFullRedraw s₁)).bump
  · cases h
    exact (hadd.trans (steps_markFullRedraw _)).bump

variable {d : Decoders}

lemma tracks_placeSixel {body : Bytes} (h : s.placeSixel d body = some s') : Tracks s s' := by
  unfold placeSixel at h
  split at h
  · cases h
    exact .refl s
  · exact tracks_placeRgba h

lemma tracks_transmit {cmd : KittyCommand} {data : Bytes} (h : s.transmit d cmd data = some s') :
    Tracks s s' := by
  unfold transmit at h
  dsimp only at h
  split_ifs at h
  · cases h
    exact .of_eq rfl rfl rfl rfl rfl rfl
  · cases h
    exact .of_eq rfl rfl rfl rfl rfl rfl
  · split at h
    · cases h
      exact .of_eq rfl rfl rfl rfl rfl rfl
    · refine Tracks.trans ?_ (tracks_placeRgba h)
      exact .of_eq rfl rfl rfl rfl rfl rfl
  · split at h
    · cases h
      exact .of_eq rfl rfl rfl rfl rfl rfl
    · cases h
      exact .of_eq rfl rfl rfl rfl rfl rfl

lemma tracks_handleApc {payload : Bytes} (h : s.handleApc d payload = some s') : Tracks s s' := by
  unfold handleApc at h
  dsimp only at h
  split_ifs at h
  · cases h
    exact .refl s
  · cases h
    exact .of_eq rfl rfl rfl rfl rfl rfl
  · cases h
    exact .of_redraw marked_markFullRedraw rfl rfl rfl rfl
  · split at h
    · cases h
      exact .refl s
    · exact tracks_placeRgba h
  · exact tracks_transmit h
  · cases h
    exact .refl s

/-! ### The handler -/

lemma tracks_execute {byte : U8} (h : s.execute byte = some s') : Tracks s s' := by
  unfold execute at h
  split at h
  · cases h
    exact tracks_moveCursor s _ _
  · cases h
    exact tracks_moveCursor s _ _
  · exact tracks_lineFeed h
  · exact tracks_lineFeed h
  · exact tracks_lineFeed h
  · cases h
    exact tracks_moveCursor s _ _
  · cases h
    exact .refl s

lemma tracks_csiDispatch (s : EmulatorState) (params : Params) (action : Char) :
    Tracks s (s.csiDispatch params action).1 := by
  unfold csiDispatch
  dsimp only
  split
  · exact tracks_moveCursor s _ _
  · exact tracks_moveCursor s _ _
  · exact tracks_moveCursor s _ _
  · exact tracks_moveCursor s _ _
  · exact tracks_cursorPosition s _ _
  · exact tracks_cursorPosition s _ _
  · exact tracks_eraseInDisplay s _
  · exact tracks_eraseInLine s _
  · exact .of_eq rfl rfl rfl rfl rfl rfl
  · exact tracks_setScrollRegion s _ _
  · split_ifs
    · exact .refl s
    · exact .refl s
  · exact .refl s

lemma tracks_escDispatch (s : EmulatorState) (byte : U8) : Tracks s (s.escDispatch byte) := by
  unfold escDispatch
  split_ifs
  · exact .of_redraw marked_markFullRedraw rfl rfl rfl rfl
  · exact tracks_reverseLineFeed s
  · exact .refl s

lemma tracks_oscDispatch (s : EmulatorState) (params : List Bytes) :
    Tracks s (s.oscDispatch d params) := by
  unfold oscDispatch
  split
  · split_ifs
    · exact .of_eq rfl rfl rfl rfl rfl rfl
    · split
      · exact .of_eq rfl rfl rfl rfl rfl rfl
      · exact .refl s
    · exact .refl s
  · exact .refl s

lemma tracks_put (s : EmulatorState) (byte : U8) : Tracks s (s.put byte) := by
  unfold put
  split_ifs
  · exact .refl s
  · exact .of_eq rfl rfl rfl rfl rfl rfl
  · exact .of_eq rfl rfl rfl rfl rfl rfl

lemma tracks_unhook (h : s.unhook d = some s') : Tracks s s' := by
  obtain ⟨s₁, hs₁, rfl⟩ := Option.map_eq_some_iff.mp h
  have hplace : Tracks s s₁ := by
    split_ifs at hs₁
    · refine Tracks.trans ?_ (tracks_placeSixel hs₁)
      exact .of_eq rfl rfl rfl rfl rfl rfl
    · cases hs₁
      exact .refl s
  refine hplace.trans ?_
  exact .of_eq rfl rfl rfl rfl rfl rfl

/-- Whatever the VT parser calls marks what it changes. -/
lemma tracks_perform {callback : Callback} {r : EmulatorState × Text}
    (h : s.perform d callback = some r) : Tracks s r.1 := by
  cases callback with
  | print c =>
    obtain ⟨s', hs', rfl⟩ := Option.map_eq_some_iff.mp h
    exact tracks_writeChar hs'
  | execute byte =>
    obtain ⟨s', hs', rfl⟩ := Option.map_eq_some_iff.mp h
    exact tracks_execute hs'
  | csiDispatch params action =>
    cases h
    exact tracks_csiDispatch s params action
  | escDispatch byte =>
    cases h
    exact tracks_escDispatch s byte
  | oscDispatch params =>
    cases h
    exact tracks_oscDispatch s params
  | hook ignore action =>
    cases h
    exact .of_eq rfl rfl rfl rfl rfl rfl
  | put byte =>
    cases h
    exact tracks_put s byte
  | unhook =>
    obtain ⟨s', hs', rfl⟩ := Option.map_eq_some_iff.mp h
    exact tracks_unhook hs'

end EmulatorState

/-! ### Runs -/

namespace TerminalEmulator

open EmulatorState

variable {P : Type} {d : Decoders} {vt : Parser P}

lemma tracks_feedEvent {p p' : TerminalEmulator P × Text} {event : StreamEvent}
    (h : feedEvent d vt p event = some p') : Tracks p.1.inner p'.1.inner := by
  cases event with
  | vt clean =>
    obtain ⟨q, hq, rfl⟩ := Option.map_eq_some_iff.mp h
    refine @Lib.rel_of_foldlM _ _ (handle d) (fun q q' => Tracks q.1 q'.1) (fun q => .refl q.1)
      (fun _ _ _ => .trans) (fun q callback q' h => ?_) _ _ _ hq
    obtain ⟨r, hr, rfl⟩ := Option.map_eq_some_iff.mp h
    show Tracks q.1 r.1
    exact tracks_perform hr
  | apc payload =>
    obtain ⟨s', hs', rfl⟩ := Option.map_eq_some_iff.mp h
    exact tracks_handleApc hs'

lemma tracks_feed {e : TerminalEmulator P} {bytes : Bytes} {p : TerminalEmulator P × Text}
    (h : e.feed d vt bytes = some p) : Tracks e.inner p.1.inner := by
  exact @Lib.rel_of_foldlM _ _ (feedEvent d vt) (fun q q' => Tracks q.1.inner q'.1.inner)
    (fun q => .refl q.1.inner) (fun _ _ _ => .trans) (fun _ _ _ => tracks_feedEvent) _ _ _ h

/-- A call other than `snapshot`. -/
lemma tracks_after {e e' : TerminalEmulator P} {call : Call} (hok : e.inner.Ok)
    (hcap : e.inner.scrollbackCap < 2 ^ 64) (hcall : call ≠ .snapshot)
    (h : e.after d vt call = some e') : Tracks e.inner e'.inner := by
  cases call with
  | feed bytes =>
    obtain ⟨p, hp, rfl⟩ := Option.map_eq_some_iff.mp h
    exact tracks_feed hp
  | resize cols rows =>
    cases h
    unfold resize
    split_ifs with hzero
    · exact .refl _
    · rw [not_or] at hzero
      exact tracks_resize hok (Fin.pos_iff_ne_zero.mpr hzero.1) (Fin.pos_iff_ne_zero.mpr hzero.2)
  | setCellPx width height =>
    cases h
    unfold setCellPx
    dsimp only
    split_ifs
    · exact .of_eq rfl rfl rfl rfl rfl rfl
    · exact .of_eq rfl rfl rfl rfl rfl rfl
    · exact .of_eq rfl rfl rfl rfl rfl rfl
    · exact .refl _
  | scrollTo pos =>
    cases h
    exact tracks_scrollTo _ pos
  | scrollBy lines =>
    cases h
    exact tracks_scrollBy hok.viewport_le (hok.scrollback_le.trans_lt hcap) lines
  | snapshot => exact absurd rfl hcall

lemma tracks_run {e e' : TerminalEmulator P} {calls : List Call} (hok : e.inner.Ok)
    (hcap : e.inner.scrollbackCap < 2 ^ 64) (hcalls : .snapshot ∉ calls)
    (h : e.run d vt calls = some e') : Tracks e.inner e'.inner := by
  unfold run at h
  induction calls generalizing e with
  | nil =>
    cases h
    exact .refl _
  | cons call calls ih =>
    rw [List.foldlM_cons] at h
    obtain ⟨e₁, he₁, hrest⟩ := Option.bind_eq_some_iff.mp h
    rw [List.mem_cons, not_or] at hcalls
    have hone := tracks_after hok hcap (Ne.symm hcalls.1) he₁
    obtain ⟨_, he₁', hok₁⟩ := ok_after d vt e call hok
    obtain rfl := Option.some.inj (he₁'.symm.trans he₁)
    exact hone.trans (ih hok₁ (hone.cap.trans_lt hcap) hcalls.2 hrest)

/-- What every call keeps. -/
structure Ready (e : TerminalEmulator P) : Prop where
  ok : e.inner.Ok
  cap : e.inner.scrollbackCap < 2 ^ 64
  marked : e.inner.Marked

lemma ready_new (vt : Parser P) (cols rows : U16) (scrollback : U64) :
    (new vt cols rows scrollback.val).Ready where
  ok := ok_new vt cols rows scrollback.val
  cap := scrollback.isLt
  marked := List.length_replicate.trans List.length_replicate.symm

/-- What a snapshot shows, and the marks it takes away. -/
structure Shows (s : EmulatorState) (p : GridSnapshot) (s' : EmulatorState) : Prop where
  lines : s.visibleLines = some p.lines
  view : p.cols = s.cols ∧ p.rows = s.rows ∧ p.cursor = s.cursor ∧
    p.scrollbackOffset = s.viewportOffset ∧ p.scrollbackTotal = s.scrollback.length
  generation : p.contentGeneration = s.contentGeneration
  redraw : p.fullRedraw = (s.fullRedraw || s.viewportOffset ≠ 0)
  dirty : p.fullRedraw = false → ∀ i, s.dirtyLines[i]? = some true → i ∈ p.dirtyLines
  after : s' = { s with dirtyLines := s.dirtyLines.map fun _ => false, fullRedraw := false }

lemma shows_snapshot {s s' : EmulatorState} {p : GridSnapshot} (h : s.snapshot = some (p, s')) :
    Shows s p s' := by
  unfold snapshot at h
  obtain ⟨lines, hlines, heq⟩ := Option.bind_eq_some_iff.mp h
  cases heq
  refine ⟨hlines, ⟨rfl, rfl, rfl, rfl, rfl⟩, rfl, rfl, fun hfull i hi => ?_, rfl⟩
  obtain ⟨hlt, htrue⟩ := List.getElem?_eq_some_iff.mp hi
  dsimp only at hfull ⊢
  rw [hfull, if_neg Bool.false_ne_true, List.mem_filter, List.mem_range]
  refine ⟨hlt, ?_⟩
  rw [List.getD_eq_getElem _ _ hlt]
  exact htrue

lemma ready_run {e e' : TerminalEmulator P} {calls : List Call} (h : e.Ready)
    (hrun : e.run d vt calls = some e') : e'.Ready := by
  have hstep (e : TerminalEmulator P) (call : Call) (h : e.Ready) :
      ∃ e', e.after d vt call = some e' ∧ e'.Ready := by
    obtain ⟨e', he', hok⟩ := ok_after d vt e call h.ok
    by_cases hcall : call = .snapshot
    · subst hcall
      obtain ⟨p, hp, rfl⟩ := Option.map_eq_some_iff.mp he'
      have hafter := (shows_snapshot hp).after
      refine ⟨_, he', hok, ?_, ?_⟩
      · rw [hafter]
        exact h.cap
      · rw [hafter]
        exact (List.length_map _).trans h.marked
    · have htracks := tracks_after h.ok h.cap hcall he'
      exact ⟨e', he', hok, htracks.cap.trans_lt h.cap, (htracks.marks h.marked).marked⟩
  obtain ⟨_, he', hready⟩ := Lib.exists_foldlM_of_step h hstep calls
  obtain rfl := Option.some.inj (he'.symm.trans hrun)
  exact hready

/-! ### Two snapshots -/

/-- Rows that differ between two snapshots are marked in the second one. -/
lemma mem_dirtyLines_of_tracks {s s₀ s₁ s₂ : EmulatorState} {p q : GridSnapshot}
    (hm : s.Marked) (hp : Shows s p s₀) (htracks : Tracks s₀ s₁) (hq : Shows s₁ q s₂)
    (hfull : q.fullRedraw = false) (i : ℕ)
    (hdiff : (p.lines[i]?).map GridLine.cells ≠ (q.lines[i]?).map GridLine.cells) :
    i ∈ q.dirtyLines := by
  have hm₀ : s₀.Marked := by
    rw [hp.after]
    exact (List.length_map _).trans hm
  have hmarks := htracks.marks hm₀
  have hsecond := hq.redraw
  rw [hfull, eq_comm, Bool.or_eq_false_iff, decide_eq_false_iff_not, not_not] at hsecond
  obtain ⟨-, hview⟩ := hmarks.redraw hsecond.1
  have hzero : s.viewportOffset = 0 := by
    rw [hsecond.2, hp.after] at hview
    exact hview.symm
  have hlines (t : EmulatorState) (r : GridSnapshot) (t' : EmulatorState) (hr : Shows t r t')
      (ht : t.viewportOffset = 0) : (r.lines[i]?).map GridLine.cells = t.grid[i]? := by
    have hvisible := hr.lines
    rw [visibleLines, if_pos ht] at hvisible
    rw [← Option.some.inj hvisible, List.getElem?_mapIdx, Option.map_map]
    exact Option.map_id'
  rw [hlines s p s₀ hp hzero, hlines s₁ q s₂ hq hsecond.2] at hdiff
  refine hq.dirty hfull i ?_
  rcases hmarks.rows hsecond.1 i with hrow | hrow
  · rw [hp.after] at hrow
    exact absurd hrow.symm hdiff
  · exact hrow

lemma val_nextGeneration {g : U64} (hg : 0 < g.val) :
    (nextGeneration g).val = g.val % (2 ^ 64 - 1) + 1 := by
  have hlt := g.isLt
  unfold nextGeneration
  by_cases hlast : g.val = 2 ^ 64 - 1
  · have hwrap : g + 1 = 0 := by
      refine Fin.ext ?_
      rw [Fin.val_add, hlast]
      rfl
    rw [hwrap, hlast]
    rfl
  · have hval : (g + 1).val = g.val + 1 := by
      rw [Fin.val_add]
      exact Nat.mod_eq_of_lt (by omega : g.val + 1 < 2 ^ 64)
    have hmax : max (g + 1) 1 = g + 1 := by
      refine max_eq_left (Fin.le_def.mpr ?_)
      rw [hval]
      exact Nat.le_add_left _ _
    rw [hmax, hval, Nat.mod_eq_of_lt (by omega)]

/-- The generation comes round after 2^64 - 1 steps. -/
lemma iterate_nextGeneration {g : U64} (hg : 0 < g.val) (n : ℕ) :
    (nextGeneration^[n] g).val = (g.val - 1 + n) % (2 ^ 64 - 1) + 1 := by
  induction n with
  | zero =>
    have hlt := g.isLt
    rw [Function.iterate_zero_apply, Nat.add_zero, Nat.mod_eq_of_lt (by omega)]
    omega
  | succ n ih =>
    have hpos : 0 < (nextGeneration^[n] g).val := ih ▸ Nat.succ_pos _
    rw [Function.iterate_succ_apply', val_nextGeneration hpos, ih, Nat.mod_add_mod, Nat.add_assoc]

lemma nextGeneration_pos (g : U64) : 0 < (nextGeneration g).val :=
  lt_of_lt_of_le Nat.one_pos (le_max_right (g + 1) 1)

/-- A generation that stands at the same value after fewer steps was not drawn. -/
lemma eq_zero_of_iterate_nextGeneration {g : U64} {n : ℕ} (hn : n < 2 ^ 64 - 1)
    (h : nextGeneration^[n] g = g) : n = 0 := by
  cases n with
  | zero => rfl
  | succ n =>
    have hpos : 0 < g.val := by
      rw [← h, Function.iterate_succ_apply']
      exact nextGeneration_pos _
    have hval := iterate_nextGeneration hpos (n + 1)
    have hlt := g.isLt
    rw [h] at hval
    omega

/-- What is seen in two snapshots of the same generation is the same. -/
lemma view_eq_of_tracks {s s' : EmulatorState} (htracks : Tracks s s')
    (hdrawn : s'.drawn < s.drawn + (2 ^ 64 - 1))
    (hgen : s'.contentGeneration = s.contentGeneration) : s'.view = s.view := by
  obtain ⟨n, hn, hg⟩ := htracks.draws
  have hzero : n = 0 := eq_zero_of_iterate_nextGeneration (g := s.contentGeneration)
    (by omega) (hg.symm.trans hgen)
  exact htracks.same (by rw [hn, hzero, Nat.add_zero])

/-- Between two snapshots, rows that change are marked unless the second one asks for a full redraw;
and if fewer than 2^64 - 1 generations were drawn, two snapshots of the same generation show the
same. -/
theorem snapshots_track_damage (cols rows : U16) (scrollback : U64) (before between : List Call)
    (hbetween : Call.snapshot ∉ between) {e₀ e₁ : TerminalEmulator P} {p q : GridSnapshot}
    {s₀ s₁ : EmulatorState} (h₀ : (new vt cols rows scrollback.val).run d vt before = some e₀)
    (hp : e₀.inner.snapshot = some (p, s₀))
    (h₁ : ({ e₀ with inner := s₀ } : TerminalEmulator P).run d vt between = some e₁)
    (hq : e₁.inner.snapshot = some (q, s₁)) :
    (q.fullRedraw = false →
      ∀ i : ℕ, (p.lines[i]?).map GridLine.cells ≠ (q.lines[i]?).map GridLine.cells →
        i ∈ q.dirtyLines) ∧
    (e₁.inner.drawn < e₀.inner.drawn + (2 ^ 64 - 1) →
      p.contentGeneration = q.contentGeneration →
        p.lines = q.lines ∧ p.cursor = q.cursor ∧ p.cols = q.cols ∧ p.rows = q.rows ∧
        p.scrollbackOffset = q.scrollbackOffset ∧ p.scrollbackTotal = q.scrollbackTotal) := by
  have hready := ready_run (ready_new vt cols rows scrollback) h₀
  have hshow := shows_snapshot hp
  have hshow' := shows_snapshot hq
  have hafter : s₀.Ok ∧ s₀.scrollbackCap < 2 ^ 64 := by
    rw [hshow.after]
    exact ⟨hready.ok, hready.cap⟩
  have htracks : Tracks s₀ e₁.inner := tracks_run hafter.1 hafter.2 hbetween h₁
  refine ⟨mem_dirtyLines_of_tracks hready.marked hshow htracks hshow', fun hdrawn hgen => ?_⟩
  have hview : e₁.inner.view = e₀.inner.view := by
    have hsame := view_eq_of_tracks htracks (by rw [hshow.after]; exact hdrawn) (by
      rw [hshow.after, ← hshow'.generation, ← hgen, hshow.generation])
    rw [hsame, hshow.after]
    rfl
  have hgrid : e₁.inner.grid = e₀.inner.grid := congrArg View.grid hview
  have hback : e₁.inner.scrollback = e₀.inner.scrollback := congrArg View.scrollback hview
  have hoffset : e₁.inner.viewportOffset = e₀.inner.viewportOffset :=
    congrArg View.viewportOffset hview
  have hrows : e₁.inner.rows = e₀.inner.rows := congrArg View.rows hview
  obtain ⟨hc, hr, hcur, ho, ht⟩ := hshow.view
  obtain ⟨hc', hr', hcur', ho', ht'⟩ := hshow'.view
  refine ⟨?_, ?_, ?_, ?_, ?_, ?_⟩
  · have hlines : e₁.inner.visibleLines = e₀.inner.visibleLines := by
      unfold visibleLines lineAt
      rw [hgrid, hback, hoffset, hrows]
    exact Option.some.inj (hshow.lines.symm.trans (hlines.symm.trans hshow'.lines))
  · exact hcur.trans ((congrArg View.cursor hview).symm.trans hcur'.symm)
  · exact hc.trans ((congrArg View.cols hview).symm.trans hc'.symm)
  · exact hr.trans (hrows.symm.trans hr'.symm)
  · exact ho.trans (hoffset.symm.trans ho'.symm)
  · rw [ht, ht', hback]

/-- A letter between two snapshots. -/
theorem snapshots_track_damage_letter :
    ∃ (e₁ : TerminalEmulator Unit) (p q : GridSnapshot) (s₀ s₁ : EmulatorState),
      (new plainParser 2 1 0).inner.snapshot = some (p, s₀) ∧
      ({ new plainParser 2 1 0 with inner := s₀ } : TerminalEmulator Unit).run noDecoders plainParser
        [.feed [0x61]] = some e₁ ∧
      e₁.inner.snapshot = some (q, s₁) ∧
      (q.fullRedraw = false →
        ∀ i : ℕ, (p.lines[i]?).map GridLine.cells ≠ (q.lines[i]?).map GridLine.cells →
          i ∈ q.dirtyLines) := by
  obtain ⟨⟨p, s₀⟩, hp, -, hok⟩ := ok_snapshot (ok_new plainParser 2 1 0)
  obtain ⟨e₁, h₁, hok₁⟩ := ok_run noDecoders plainParser
    { new plainParser 2 1 0 with inner := s₀ } [.feed [0x61]] hok
  obtain ⟨⟨q, s₁⟩, hq, -⟩ := ok_snapshot hok₁
  exact ⟨e₁, p, q, s₀, s₁, hp, h₁, hq,
    (snapshots_track_damage 2 1 0 [] [.feed [0x61]] (by simp) rfl hp h₁ hq).1⟩

/-- Many scrolls to a line draw as many generations and leave what is seen. -/
lemma run_scrollTo_line (e : TerminalEmulator P) (n : ℕ) :
    ∃ (g : U64) (k : ℕ) (dirtyLines : List Bool) (fullRedraw : Bool),
      e.run d vt (List.replicate n (.scrollTo (.line 0))) =
        some { e with
          inner := { e.inner with contentGeneration := g, drawn := k, dirtyLines, fullRedraw } } ∧
      g = nextGeneration^[n] e.inner.contentGeneration := by
  induction n generalizing e with
  | zero => exact ⟨_, _, _, _, rfl, rfl⟩
  | succ n ih =>
    obtain ⟨g, k, dirtyLines, fullRedraw, hrun, hg⟩ :=
      ih { e with inner := e.inner.scrollTo (.line 0) }
    exact ⟨g, k, dirtyLines, fullRedraw, hrun, hg⟩

/-- After 2^64 - 1 changes the generation is the old one. -/
theorem not_snapshots_track_damage :
    ¬ ∀ (cols rows : U16) (scrollback : U64) (before between : List Call)
      (e₀ e₁ : TerminalEmulator Unit) (p q : GridSnapshot) (s₀ s₁ : EmulatorState),
      Call.snapshot ∉ between →
      (new plainParser cols rows scrollback.val).run noDecoders plainParser before = some e₀ →
      e₀.inner.snapshot = some (p, s₀) →
      ({ e₀ with inner := s₀ } : TerminalEmulator Unit).run noDecoders plainParser between =
        some e₁ →
      e₁.inner.snapshot = some (q, s₁) →
      p.contentGeneration = q.contentGeneration → p.cursor = q.cursor := by
  intro h
  obtain ⟨⟨p, s₀⟩, hp, -⟩ := ok_snapshot (ok_new plainParser 2 1 0)
  have hshow := shows_snapshot hp
  obtain ⟨g, k, dirtyLines, fullRedraw, hscroll, hg⟩ := run_scrollTo_line (d := noDecoders)
    (P := Unit) { new plainParser 2 1 0 with inner := s₀ } (2 ^ 64 - 2)
  have hgen : nextGeneration g = 1 := by
    have hone : s₀.contentGeneration = 1 := by
      rw [hshow.after]
      rfl
    refine Fin.ext ?_
    rw [hg, hone, ← Function.iterate_succ_apply' nextGeneration (2 ^ 64 - 2) 1,
      iterate_nextGeneration Nat.one_pos]
    rfl
  obtain ⟨e₁, hfeed, hcol, hgen₁, hview⟩ : ∃ e₁ : TerminalEmulator Unit,
      after noDecoders plainParser { new plainParser 2 1 0 with
        inner := { s₀ with contentGeneration := g, drawn := k, dirtyLines, fullRedraw } }
          (.feed [0x61]) = some e₁ ∧ e₁.inner.cursor.col = 1 ∧
        e₁.inner.contentGeneration = nextGeneration g ∧ e₁.inner.viewportOffset = 0 := by
    rw [hshow.after]
    exact ⟨_, rfl, rfl, rfl, rfl⟩
  obtain ⟨⟨q, s₁⟩, hq⟩ : ∃ r, e₁.inner.snapshot = some r := by
    unfold snapshot visibleLines
    rw [if_pos hview]
    exact ⟨_, rfl⟩
  have hshow' := shows_snapshot hq
  have hrun : ({ new plainParser 2 1 0 with inner := s₀ } : TerminalEmulator Unit).run noDecoders
      plainParser (List.replicate (2 ^ 64 - 2) (.scrollTo (.line 0)) ++ [.feed [0x61]]) =
        some e₁ := by
    unfold run at hscroll ⊢
    rw [List.foldlM_append, hscroll]
    exact congrArg (Option.bind · _) hfeed
  have hno : Call.snapshot ∉ List.replicate (2 ^ 64 - 2) (.scrollTo (.line 0)) ++
      [Call.feed [0x61]] := by
    intro hmem
    rcases List.mem_append.mp hmem with hmem | hmem
    · cases List.eq_of_mem_replicate hmem
    · cases List.mem_singleton.mp hmem
  have hsame := h 2 1 0 [] _ _ e₁ p q s₀ s₁ hno rfl hp hrun hq (by
    rw [hshow.generation, hshow'.generation, hgen₁, hgen]
    rfl)
  rw [hshow.view.2.2.1, hshow'.view.2.2.1] at hsame
  have hzero : (0 : U16) = 1 := (congrArg CursorState.col hsame).trans hcol
  exact absurd hzero (by decide)

end TerminalEmulator

end Orchid.Terminal
