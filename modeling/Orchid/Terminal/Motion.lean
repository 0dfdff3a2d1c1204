import Orchid.Terminal.Invariant

/-!
# Moving the cursor up and down

`CSI A` and `CSI B`. Both keep the cursor on the inner side of one edge of the scroll region, also
where it was on the outer side before.
-/

namespace Orchid.Terminal.EmulatorState

variable {s : EmulatorState}

/-- A move up: not down, to the top of the scroll region only from there or from below it, and to a
place in the grid. -/
structure GoesUp (s s' : EmulatorState) : Prop where
  row_le : s'.cursor.row ≤ s.cursor.row
  inner : s'.cursor.row = s.scrollTop → s.scrollTop ≤ s.cursor.row
  row_lt : s'.cursor.row.val < s'.grid.length
  col_le : s'.cursor.col ≤ s'.cols

/-- A move down: not up, to the bottom of the scroll region only from there or from above it, and to
a place in the grid. -/
structure GoesDown (s s' : EmulatorState) : Prop where
  le_row : s.cursor.row ≤ s'.cursor.row
  inner : s'.cursor.row = s.scrollBottom → s.cursor.row ≤ s.scrollBottom
  row_lt : s'.cursor.row.val < s'.grid.length
  col_le : s'.cursor.col ≤ s'.cols

@[simp] lemma row_moveCursor (s : EmulatorState) (row col : U16) :
    (s.moveCursor row col).cursor.row = row := by
  unfold moveCursor
  split_ifs with h
  · exact h.1.symm
  · rfl

lemma row_cursorUp (s : EmulatorState) (n : U16) :
    (s.cursorUp n).cursor.row.val = max (s.cursor.row.val - n.val) s.scrollTop.val := by
  rw [cursorUp, row_moveCursor, Fin.coe_max]
  rfl

lemma row_cursorDown (s : EmulatorState) (n : U16) :
    (s.cursorDown n).cursor.row.val =
      min (min (min (s.cursor.row.val + n.val) (2 ^ 16 - 1)) s.scrollBottom.val)
        (s.rows.val - 1) := by
  rw [cursorDown, row_moveCursor, Fin.coe_min, Fin.coe_min]
  rfl

/-- Whatever the count, the cursor goes up if it is not above the scroll region. -/
lemma goesUp_cursorUp_iff (h : s.Ok) (n : U16) :
    GoesUp s (s.cursorUp n) ↔ s.scrollTop ≤ s.cursor.row := by
  have hrow := row_cursorUp s n
  have hok := ok_cursorUp h n
  constructor
  · intro hup
    have hle : (s.cursorUp n).cursor.row.val ≤ s.cursor.row.val := hup.row_le
    exact Fin.le_def.mpr (by omega)
  · intro htop
    refine ⟨Fin.le_def.mpr ?_, fun _ => htop, ?_, hok.col_le⟩
    · have := Fin.le_def.mp htop
      omega
    · exact hok.row_lt.trans_eq hok.grid_length.symm

/-- Whatever the count, the cursor goes down if it is not below the scroll region. -/
lemma goesDown_cursorDown_iff (h : s.Ok) (n : U16) :
    GoesDown s (s.cursorDown n) ↔ s.cursor.row ≤ s.scrollBottom := by
  have hrow := row_cursorDown s n
  have hok := ok_cursorDown h n
  constructor
  · intro hdown
    have hle : s.cursor.row.val ≤ (s.cursorDown n).cursor.row.val := hdown.le_row
    exact Fin.le_def.mpr (by omega)
  · intro hbottom
    refine ⟨Fin.le_def.mpr ?_, fun _ => hbottom, ?_, hok.col_le⟩
    · have hb := Fin.le_def.mp hbottom
      have hlt : s.cursor.row.val < s.rows.val := h.row_lt
      have hmax := s.cursor.row.isLt
      omega
    · exact hok.row_lt.trans_eq hok.grid_length.symm

/-- Whatever the parameters, `CSI A` moves up unless the cursor is above the scroll region, and
`CSI B` moves down unless it is below it. -/
theorem csi_vertical_iff (h : s.Ok) (params : Params) :
    (GoesUp s (s.csiDispatch params 'A').1 ↔ s.scrollTop ≤ s.cursor.row) ∧
      (GoesDown s (s.csiDispatch params 'B').1 ↔ s.cursor.row ≤ s.scrollBottom) :=
  ⟨goesUp_cursorUp_iff h _, goesDown_cursorDown_iff h _⟩

/-- A scroll region is set, which puts the cursor above it. -/
def region : EmulatorState := ((new 80 24 100).csiDispatch [[3], [5]] 'r').1

/-- Above the region `CSI B` goes down and `CSI A` does not go up; three lines on it does. -/
theorem csi_vertical_region : region.Ok ∧
    ¬ GoesUp region (region.csiDispatch [[1]] 'A').1 ∧
    GoesDown region (region.csiDispatch [[3]] 'B').1 ∧
    GoesUp (region.csiDispatch [[3]] 'B').1
      ((region.csiDispatch [[3]] 'B').1.csiDispatch [[1]] 'A').1 := by
  have hok : region.Ok := ok_csiDispatch (ok_new 100 (by decide) (by decide)) _ _
  have hdown : (region.csiDispatch [[3]] 'B').1.Ok := ok_csiDispatch hok _ _
  refine ⟨hok, fun hup => ?_, (csi_vertical_iff hok [[3]]).2.mpr (by decide),
    (csi_vertical_iff hdown [[1]]).1.mpr (by decide)⟩
  exact absurd ((csi_vertical_iff hok [[1]]).1.mp hup) (by decide)

/-- Setting a scroll region puts the cursor above it, and from there `CSI A` moves down. -/
theorem not_goesUp : ¬∀ s : EmulatorState, s.Ok → ∀ params,
    GoesUp s (s.csiDispatch params 'A').1 ∧ GoesDown s (s.csiDispatch params 'B').1 := by
  intro h
  have hok : region.Ok := ok_csiDispatch (ok_new 100 (by decide) (by decide)) _ _
  have hup := (h _ hok [[1]]).1
  have htop := (goesUp_cursorUp_iff hok (max 1 1)).mp hup
  exact absurd htop (by decide)

end Orchid.Terminal.EmulatorState
