import Orchid.Base.Text
import Orchid.Lib.Joined
import Orchid.Terminal.Grid

/-!
# The text of a selection

`selected_text` of `emulator/mod.rs`. Rows count from the top of the grid, those of the scrollback
are negative.
-/

namespace Orchid.Terminal

/-! ### Selections -/

/-- `GridPoint` -/
structure GridPoint where
  col : U16
  row : ℤ

/-- `Selection`; the end of a range is exclusive. -/
inductive Selection
  | linear (start stop : GridPoint)
  | block (start stop : GridPoint)
  | word (point : GridPoint)
  | line (row : ℤ)

/-- `(start.row, start.col) <= (end.row, end.col)` -/
def GridPoint.le (p q : GridPoint) : Prop := p.row < q.row ∨ (p.row = q.row ∧ p.col ≤ q.col)

instance (p q : GridPoint) : Decidable (p.le q) := inferInstanceAs (Decidable (_ ∨ _))

/-- The two ends of a range, whichever way it was dragged. -/
def GridPoint.earlier (p q : GridPoint) : GridPoint := if p.le q then p else q

def GridPoint.later (p q : GridPoint) : GridPoint := if p.le q then q else p

/-- `cells_to_string` -/
def cellsToString (cells : Line) : Text := (cells.map Cell.ch).rdropWhile (· = ' ')

/-- The rows behind `lo` and in front of `hi`. -/
def rowsBetween (lo hi : ℤ) : List ℤ :=
  (List.range (hi - (lo + 1)).toNat).map fun i : ℕ => lo + 1 + (i : ℤ)

namespace EmulatorState

/-- `row_text` -/
def rowText (s : EmulatorState) (row : ℤ) : Text :=
  if row < 0 then
    if 0 ≤ s.scrollback.length + row then
      ((s.scrollback[(s.scrollback.length + row).toNat]?).map cellsToString).getD []
    else []
  else ((s.grid[row.toNat]?).map cellsToString).getD []

/-- The columns from `a` to `b` of a row, as far as it has text. -/
def rowSlice (s : EmulatorState) (row : ℤ) (a b : ℕ) : Text := ((s.rowText row).take b).drop a

/-- `selected_text` -/
def selectedText (s : EmulatorState) : Option Selection → Text
  | none => []
  | some (.line row) => s.rowText row
  | some (.linear start stop) =>
    let lo := start.earlier stop
    let hi := start.later stop
    if lo.row = hi.row then s.rowSlice lo.row lo.col.val hi.col.val
    else
      s.rowText lo.row ++ ['\n'] ++
        ((rowsBetween lo.row hi.row).flatMap fun r => s.rowText r ++ ['\n']) ++
        (s.rowText hi.row).take hi.col.val
  | some (.block start stop) =>
    let top := min start.row stop.row
    let bot := max start.row stop.row
    (rowsBetween (top - 1) (bot + 1)).flatMap fun r =>
      s.rowSlice r (min start.col stop.col).val (max start.col stop.col).val ++ ['\n']
  | some (.word point) =>
    let chars := s.rowText point.row
    let pos := min point.col.val (chars.length - 1)
    (chars.take pos).rtakeWhile (!isWhitespace ·) ++ (chars.drop pos).takeWhile (!isWhitespace ·)

/-! ### What a range should give -/

/-- The rows from that of `lo` to that of `hi`, the first one from its column on and the last one up
to its column. -/
def spanText (s : EmulatorState) (lo hi : GridPoint) : Text :=
  ['\n'].intercalate ((rowsBetween (lo.row - 1) (hi.row + 1)).map fun r =>
    s.rowSlice r (if r = lo.row then lo.col.val else 0)
      (if r = hi.row then hi.col.val else (s.rowText r).length))

lemma mem_rowsBetween {lo hi r : ℤ} : r ∈ rowsBetween lo hi ↔ lo < r ∧ r < hi := by
  rw [rowsBetween, List.mem_map]
  constructor
  · rintro ⟨i, hi, rfl⟩
    have := List.mem_range.mp hi
    omega
  · rintro ⟨hlo, hhi⟩
    exact ⟨(r - (lo + 1)).toNat, List.mem_range.mpr (by omega), by omega⟩

lemma rowsBetween_self (row : ℤ) : rowsBetween (row - 1) (row + 1) = [row] := by
  have hlen : (row + 1 - (row - 1 + 1)).toNat = 1 := by omega
  rw [rowsBetween, hlen]
  simp

/-- The first and the last row with those in between. -/
lemma rowsBetween_ends {lo hi : ℤ} (h : lo < hi) :
    rowsBetween (lo - 1) (hi + 1) = lo :: (rowsBetween lo hi ++ [hi]) := by
  have hlen : (hi + 1 - (lo - 1 + 1)).toNat = (hi - (lo + 1)).toNat + 1 + 1 := by omega
  rw [rowsBetween, hlen, List.range_succ, List.map_append, List.range_succ_eq_map, List.map_cons,
    List.map_map, rowsBetween, List.cons_append]
  congr 1
  · omega
  · congr 1
    · refine List.map_congr_left fun i _ => ?_
      simp only [Function.comp_apply, Nat.succ_eq_add_one]
      push_cast
      omega
    · rw [List.map_singleton]
      push_cast
      congr 1
      omega

/-- Line breaks behind all texts but the last one are line breaks in front of all but the first. -/
lemma breaks_append (texts : List Text) (last : Text) :
    '\n' :: (texts.flatMap (· ++ ['\n']) ++ last) = (texts ++ [last]).flatMap ('\n' :: ·) := by
  induction texts with
  | nil => simp
  | cons t texts ih =>
    rw [List.flatMap_cons, List.append_assoc, List.append_assoc, List.singleton_append, ih,
      List.cons_append, List.flatMap_cons]
    rfl

variable {s : EmulatorState}

lemma rowSlice_all (row : ℤ) : s.rowSlice row 0 (s.rowText row).length = s.rowText row := by
  rw [rowSlice, List.take_length, List.drop_zero]

lemma spanText_self {lo hi : GridPoint} (h : lo.row = hi.row) :
    s.spanText lo hi = s.rowSlice lo.row lo.col.val hi.col.val := by
  rw [spanText, ← h, rowsBetween_self]
  simp

lemma spanText_of_lt {lo hi : GridPoint} (h : lo.row < hi.row) :
    s.spanText lo hi =
      (s.rowText lo.row).drop lo.col.val ++ ('\n' ::
        ((rowsBetween lo.row hi.row).flatMap fun r => s.rowText r ++ ['\n'])) ++
        (s.rowText hi.row).take hi.col.val := by
  have hmid : ∀ r ∈ rowsBetween lo.row hi.row,
      s.rowSlice r (if r = lo.row then lo.col.val else 0)
        (if r = hi.row then hi.col.val else (s.rowText r).length) = s.rowText r := by
    intro r hr
    obtain ⟨hlo, hhi⟩ := mem_rowsBetween.mp hr
    rw [if_neg hlo.ne', if_neg hhi.ne, rowSlice_all]
  have hflat : ((rowsBetween lo.row hi.row).flatMap fun r => s.rowText r ++ ['\n']) =
      ((rowsBetween lo.row hi.row).map s.rowText).flatMap (· ++ ['\n']) := by
    rw [List.flatMap_map]
  have hspread := @Lib.spread_cons '\n'
  unfold Lib.spread at hspread
  rw [spanText, rowsBetween_ends h, List.map_cons, List.map_append, List.map_singleton,
    List.map_congr_left hmid, hspread, ← breaks_append, hflat]
  simp [rowSlice, h.ne, h.ne']

lemma drop_eq_self_iff {t : Text} {n : ℕ} : t.drop n = t ↔ n = 0 ∨ t = [] := by
  constructor
  · intro h
    have hlen := congrArg List.length h
    rw [List.length_drop] at hlen
    rcases Nat.eq_zero_or_pos n with hn | hn
    · exact .inl hn
    · exact .inr (List.length_eq_zero_iff.mp (by omega))
  · rintro (rfl | rfl)
    · rfl
    · exact List.drop_nil

/-- A selected range gives the text between its ends exactly if it is in one row, or begins in the
first column or in a row without text. -/
theorem selectedText_linear_iff (s : EmulatorState) (start stop : GridPoint) :
    s.selectedText (some (.linear start stop)) =
        s.spanText (start.earlier stop) (start.later stop) ↔
      (start.earlier stop).row = (start.later stop).row ∨ (start.earlier stop).col = 0 ∨
        s.rowText (start.earlier stop).row = [] := by
  have hle : (start.earlier stop).row ≤ (start.later stop).row := by
    unfold GridPoint.earlier GridPoint.later
    split_ifs with h
    · exact h.elim le_of_lt fun heq => heq.1.le
    · obtain ⟨hlt, -⟩ := not_or.mp h
      exact not_lt.mp hlt
  rw [selectedText]
  generalize start.earlier stop = lo at hle ⊢
  generalize start.later stop = hi at hle ⊢
  by_cases h : lo.row = hi.row
  · rw [if_pos h, spanText_self h]
    exact iff_of_true rfl (.inl h)
  · rw [if_neg h, spanText_of_lt (lt_of_le_of_ne hle h), List.append_assoc (s.rowText lo.row),
      List.singleton_append, List.append_left_inj, List.append_left_inj, or_iff_right h, eq_comm,
      drop_eq_self_iff, Fin.ext_iff]
    rfl

/-- Two full rows. -/
def twoRows : EmulatorState :=
  { new 2 2 0 with grid := [[{ ch := 'a' }, { ch := 'b' }], [{ ch := 'c' }, { ch := 'd' }]] }

/-- The first row of a longer range is there from its first column on. -/
theorem not_selectedText_linear : ¬∀ (s : EmulatorState) (start stop : GridPoint),
    s.selectedText (some (.linear start stop)) =
      s.spanText (start.earlier stop) (start.later stop) := by
  intro h
  have heq := h twoRows ⟨1, 0⟩ ⟨1, 1⟩
  revert heq
  decide

end EmulatorState

end Orchid.Terminal
